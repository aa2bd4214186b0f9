import TaskScheduler.Connections.Store
import TaskScheduler.Db.Alone
import TaskScheduler.Domain.Jobs
import TaskScheduler.Quotas.Containment
import TaskScheduler.Ratelimit.Checker
import TaskScheduler.Secrets.LiteralDetection

/-! The tool `task.create.v1`, `_handle_task_create` of `app/mcp/server.py`: the gates that a
request passes one after the other, and the job that it creates behind them.  The gate of the
containment caps is exact for a request that asks for a recurring job, and not for the others. -/

namespace TaskScheduler.Mcp

open Lib Ratelimit Connections

/-! ### The request -/

/-- The arguments of `task.create.v1`, with the defaults of the handler. -/
structure CreateArguments where
  action : Option String := none
  actionParams : Json := .obj []
  scheduleType : String := "immediate"
  scheduledAt : Option String := none
  idempotencyKey : Option String := none
  timezone : Option String := none
  cronExpr : Option String := none
  triggerOnJobId : Option Json := none
  triggerOnStatus : Option String := none

/-- `expected` of an error. -/
inductive Expected
  | text (s : String)
  | retryAfterSeconds (seconds : Int)
  deriving DecidableEq, Repr

/-- The envelope that the handler returns; a success carries the id of a scheduled job. -/
inductive CreateReply
  | success (jobId : Nat)
  | error (code message : String) (field : Option String) (expected : Option Expected)
      (connectUrl : Option String)
  deriving DecidableEq, Repr

/-- The field that an error names. -/
def CreateReply.field : CreateReply → Option String
  | success _ => none
  | error _ _ field _ _ => field

/-- The fields of `settings` that the handler reads, and the envelope of the server. -/
structure Settings (Blob : Type) where
  operatorUserId : Option String
  overloadBackpressureQueueDepth : Nat
  overloadRetryAfterSeconds : Nat
  rateLimits : RateLimits
  containmentLimits : ContainmentLimits
  connectionsBaseUrl : String
  mcpUserTz : Option String
  envelope : Option (KmsEnvelope Blob)

/-- The calls into the libraries: `repr` of a string, `str.isalnum` of a character, `int` of a raw
job id, `str.capitalize`, and the text of croniter's error. -/
structure CreateLibs where
  repr : String → String
  isalnum : Char → Bool
  jobId : Json → Option Nat
  capitalize : String → String
  badDate : String

/-- What a request meets: the depth of the queue, the clock of the rate limit and that of the
creation, and the start and the plan of the transactions. -/
structure Meets where
  queueDepth : Nat
  checkedAt : Int
  now : Int
  start : Int
  pick : Nat → Bool

/-- The value of a status in the tables. -/
def statusText : RunStatus → String
  | .pending => "PENDING"
  | .queued => "QUEUED"
  | .running => "RUNNING"
  | .retrying => "RETRYING"
  | .succeeded => "SUCCEEDED"
  | .failed => "FAILED"
  | .cancelled => "CANCELLED"

/-- `map_domain_error`; what is no domain exception and no `ValueError` is internal. -/
def mapDomainError (lib : CreateLibs) : Err → CreateReply
  | .unknownAction action =>
    .error "UNKNOWN_ACTION" ("Unknown action: " ++ action) (some "action") (some (.text "echo"))
      none
  | .operatorOnlyAction action =>
    .error "INVALID_STATE" ("Action '" ++ action ++ "' is restricted to the operator.")
      (some "action") none none
  | .unsupportedScheduleType scheduleType =>
    .error "USER_INPUT" ("Unsupported schedule_type '" ++ scheduleType ++ "'.")
      (some "schedule_type") (some (.text "immediate, one-shot, or recurring")) none
  | .invalidCronExpr hint =>
    .error "USER_INPUT" hint (some "cron_expr")
      (some (.text ("5-field POSIX expression (minute hour dom month dow), " ++
        "e.g. '0 8 * * *', or @daily/@hourly/@weekly/@monthly/@yearly"))) none
  | .invalidScheduledAt text =>
    .error "USER_INPUT" text (some "scheduled_at") (some (.text "ISO 8601 datetime in the future"))
      none
  | .invalidTimezone timezone =>
    .error "USER_INPUT" ("Invalid timezone '" ++ timezone ++ "'.") (some "timezone")
      (some (.text "IANA timezone key (e.g. \"Asia/Taipei\", \"UTC\")")) none
  | .jobNotFound jobId => .error "NOT_FOUND" ("Job not found: " ++ toString jobId) none none none
  | .invalidState hint => .error "INVALID_STATE" (statusText hint) none none none
  | .chainJobNotFound jobId =>
    .error "NOT_FOUND" ("Trigger job not found: " ++ toString jobId) (some "trigger_on_job_id") none
      none
  | .chainJobTerminated jobId =>
    .error "INVALID_STATE" ("Trigger job " ++ toString jobId ++
        " is already fully terminated; chaining on it would wait forever.")
      (some "trigger_on_job_id") none none
  | .chainCycle jobId =>
    .error "USER_INPUT"
      ("Trigger job " ++ toString jobId ++ " forms a cycle in the chain ancestry.")
      (some "trigger_on_job_id") (some (.text "non-circular chain")) none
  | .chainDepth jobId =>
    .error "USER_INPUT" ("Chain depth would exceed the maximum of 10 (trigger_on_job_id=" ++
        toString jobId ++ ").")
      (some "trigger_on_job_id") (some (.text "chain depth ≤ 10")) none
  | .chainRunSource =>
    .error "USER_INPUT" ("trigger_on_job_id and cron_expr are mutually exclusive: " ++
        "a chained job inherits recurrence from its trigger and must not carry its own cron.")
      (some "trigger_on_job_id") (some (.text "set only one of cron_expr or trigger_on_job_id"))
      none
  | .valueError triggerOnStatus =>
    .error "USER_INPUT" ("trigger_on_status must be one of ['ANY', 'FAILED', 'SUCCEEDED'], got " ++
      lib.repr triggerOnStatus) none none none
  | .badDate => .error "USER_INPUT" lib.badDate none none none
  | .concurrency => .error "INTERNAL" "An unexpected error occurred." none none none
  | .integrity => .error "INTERNAL" "An unexpected error occurred." none none none
  | .noResultFound => .error "INTERNAL" "An unexpected error occurred." none none none
  | .zoneInfoNotFound => .error "INTERNAL" "An unexpected error occurred." none none none
  | .overflow => .error "INTERNAL" "An unexpected error occurred." none none none
  | .recursion => .error "INTERNAL" "An unexpected error occurred." none none none

/-! ### The gates -/

section Gates

variable {Blob : Type} (cfg : Settings Blob) (lib : CreateLibs)

/-- The gate for literal credentials. -/
def literalSecret (args : CreateArguments) : Option CreateReply :=
  (Secrets.detectLiteralSecret lib.isalnum args.actionParams).map fun matchedPrefix =>
    .error "USER_INPUT"
      ("action_params appears to contain a literal credential (matched prefix: " ++
        lib.repr matchedPrefix ++ "). Use $\x7bVAR_NAME\x7d form instead (e.g. " ++
        "$\x7bANTHROPIC_API_KEY\x7d) so the value is read from the server environment at execution " ++
        "time.")
      (some "action_params")
      (some (.text "$\x7bVAR_NAME\x7d reference instead of a literal credential")) none

/-- The gate for a deep queue. -/
def backpressure (queueDepth : Nat) : Option CreateReply :=
  if queueDepth ≥ cfg.overloadBackpressureQueueDepth then
    some (.error "INVALID_STATE"
      ("Queue depth (" ++ toString queueDepth ++ ") exceeds threshold (" ++
        toString cfg.overloadBackpressureQueueDepth ++
        "). The system is busy; please retry after " ++
        toString cfg.overloadRetryAfterSeconds ++ " seconds.")
      (some "queue_depth") (some (.retryAfterSeconds cfg.overloadRetryAfterSeconds)) none)
  else none

/-- `trigger_on_job_id`, read as an integer. -/
def triggerOnJobId (args : CreateArguments) : Except CreateReply (Option Nat) :=
  match args.triggerOnJobId with
  | none => .ok none
  | some raw =>
    match lib.jobId raw with
    | some jobId => .ok (some jobId)
    | none =>
      .error (.error "USER_INPUT" "trigger_on_job_id must be an integer" (some "trigger_on_job_id")
        (some (.text "integer")) none)

/-- The gate of the rate limit; an exception in it is caught with the others. -/
def rateLimited (userId : String) (jobs : List Job) (now : Int) : Option CreateReply :=
  match checkRateLimit userId jobs cfg.rateLimits now with
  | .ok .allow => none
  | .ok (.reject reason retryAfterSeconds) =>
    some (.error "USER_INPUT" ("Rate limit exceeded: " ++ reason) (some "user_id")
      (some (.retryAfterSeconds retryAfterSeconds)) none)
  | .error (.typeError _) => some (.error "INTERNAL" "An unexpected error occurred." none none none)

/-- The gate of the containment caps, which the checker is not told the request for. -/
def overQuota (userId : String) (start : Int) (pick : Nat → Bool) (x : Db) : Option CreateReply :=
  match x.alone start pick (checkContainment userId cfg.containmentLimits false) with
  | some (.ok (.reject reason retryAfterSeconds), _) =>
    some (.error "USER_INPUT" ("Quota exceeded: " ++ reason) (some "user_id")
      (some (.retryAfterSeconds retryAfterSeconds)) none)
  | some (.error e, _) => some (mapDomainError lib e)
  | _ => none

/-- The provider that an action with the credential mode `oauth_connection` requires. -/
def requiredProvider (action : String) : Option String :=
  if action = "email_send" then some "google"
  else if action = "github_digest" then some "github"
  else if action = "slack_post" then some "slack"
  else none

/-- `_check_oauth_connection`, without a refresher; only a missing connection is in the way. -/
def checkOauthConnection (fromisoformat : String → Option Int) (action : Option String)
    (userId : String) (w : World Blob) : Option CreateReply :=
  match action.bind requiredProvider, cfg.envelope with
  | some provider, some envelope =>
    match (inSession (getFreshToken envelope fromisoformat none 0 0 0 userId provider) w).1 with
    | .error .connectionMiss =>
      let connectUrl := cfg.connectionsBaseUrl ++ "/connections"
      some (.error "MISSING_CONNECTION"
        ("This action requires a " ++ provider ++ " connection that you haven't set up yet. " ++
          "Connect your " ++ lib.capitalize provider ++ " account at " ++ connectUrl)
        none none (some connectUrl))
    | _ => none
  | _, _ => none

/-- The gates that the operator need not pass. -/
def userGates (fromisoformat : String → Option Int) (userId : String) (args : CreateArguments)
    (meets : Meets) (w : World Blob) (x : Db) : Option CreateReply :=
  (rateLimited cfg userId x.tables.jobs meets.checkedAt).or <|
    (overQuota cfg lib userId meets.start meets.pick x).or <|
      checkOauthConnection cfg lib fromisoformat args.action userId w

/-- The arguments that `create_job` is called with. -/
def createArgs (userId : String) (tzHeader : Option String) (args : CreateArguments)
    (triggerOnJobId : Option Nat) : CreateArgs where
  userId := userId
  action := args.action.getD "None"
  scheduleType := args.scheduleType
  idempotencyKey := args.idempotencyKey
  scheduledAt := args.scheduledAt
  timezone := args.timezone.filter (· ≠ "")
  cronExpr := args.cronExpr.filter (· ≠ "")
  tzHeader := tzHeader
  tzEnv := cfg.mcpUserTz
  triggerOnJobId := triggerOnJobId
  triggerOnStatus := args.triggerOnStatus
  operatorUserId := cfg.operatorUserId

/-- `_handle_task_create`. -/
def handleTaskCreate (libs : Libs) (fromisoformat : String → Option Int) (tzHeader : Option String)
    (userId : String) (args : CreateArguments) (meets : Meets) (w : World Blob) (x : Db) :
    CreateReply × Db :=
  match (literalSecret lib args).or (backpressure cfg meets.queueDepth) with
  | some e => (e, x)
  | none =>
    match triggerOnJobId lib args with
    | .error e => (e, x)
    | .ok triggerOnJobId =>
      let gates :=
        if isOperator cfg.operatorUserId userId then none
        else userGates cfg lib fromisoformat userId args meets w x
      match gates with
      | some e => (e, x)
      | none =>
        match x.alone meets.start meets.pick
            (createJob libs meets.now (createArgs cfg userId tzHeader args triggerOnJobId)) with
        | some (.ok jobId, x) => (.success jobId, x)
        | some (.error e, x) => (mapDomainError lib e, x)
        | none => (.error "INTERNAL" "An unexpected error occurred." none none none, x)

end Gates

/-! ### The containment caps -/

/-- The counts of `check_containment`. -/
def activeRecurring (jobs : List Job) (userId : String) : Nat :=
  jobs.countP fun j => j.userId == userId && j.state == .active && j.jobType == .recurring

def activeTotal (jobs : List Job) (userId : String) : Nat :=
  jobs.countP fun j => j.userId == userId && j.state == .active

def globalRecurring (jobs : List Job) : Nat :=
  jobs.countP fun j => j.state == .active && j.jobType == .recurring

/-- The request asks for a recurring job. -/
def CreateArguments.recurring (args : CreateArguments) : Bool := args.scheduleType == "recurring"

/-- One more job of the kind would make a count exceed its cap. -/
def WouldExceed (limits : ContainmentLimits) (jobs : List Job) (userId : String)
    (recurring : Bool) : Prop :=
  (recurring = true ∧ limits.activeRecurringPerUser < activeRecurring jobs userId + 1) ∨
    limits.activeTotalPerUser < activeTotal jobs userId + 1 ∨
    (recurring = true ∧ limits.globalActiveRecurring < globalRecurring jobs + 1)

/-- The envelope of a rejection for quota reasons. -/
def quotaExceeded (reason : String) (retryAfterSeconds : Int) : CreateReply :=
  .error "USER_INPUT" ("Quota exceeded: " ++ reason) (some "user_id")
    (some (.retryAfterSeconds retryAfterSeconds)) none

def CreateReply.IsQuotaExceeded (reply : CreateReply) : Prop :=
  ∃ reason retryAfterSeconds, reply = quotaExceeded reason retryAfterSeconds

/-- The caps on recurring jobs. -/
def recurringCaps : List String := ["active_recurring_per_user", "global_active_recurring"]

/-- The first cap that a count has reached, in the order of `check_containment`. -/
def reachedCap (limits : ContainmentLimits) (jobs : List Job) (userId : String) : Option String :=
  if limits.activeRecurringPerUser ≤ activeRecurring jobs userId then
    some "active_recurring_per_user"
  else if limits.activeTotalPerUser ≤ activeTotal jobs userId then some "active_total_per_user"
  else if limits.globalActiveRecurring ≤ globalRecurring jobs then some "global_active_recurring"
  else none

theorem quotaExceeded_inj {reason reason' : String} {seconds seconds' : Int} :
    quotaExceeded reason seconds = quotaExceeded reason' seconds' ↔
      reason = reason' ∧ seconds = seconds' := by
  constructor
  · intro h
    obtain ⟨-, hmessage, -, hseconds, -⟩ := CreateReply.error.inj h
    refine ⟨?_, Expected.retryAfterSeconds.inj (Option.some.inj hseconds)⟩
    have hlists := congrArg String.toList hmessage
    simp only [String.toList_append, List.append_cancel_left_eq] at hlists
    exact String.toList_inj.mp hlists
  · rintro ⟨rfl, rfl⟩
    rfl

/-- The schedule type of a request decides the type of the job. -/
theorem planCreate_recurring {libs : Libs} {now : Int} {args : CreateArgs} {plan : CreatePlan}
    (h : planCreate libs now args = .ok plan) :
    (Job.new args plan).jobType = .recurring ↔ args.scheduleType = "recurring" := by
  have hplan : ∀ {scheduleType status}, planSchedule libs now args scheduleType status = .ok plan →
      (plan.cronExpr.isSome = true ↔ scheduleType = .recurring) := by
    intro scheduleType status h
    cases scheduleType with
    | recurring =>
      simp only [planSchedule] at h
      split at h
      · cases h
      · split at h
        · cases h
        · split at h
          · cases h
          · split at h
            · cases h
            · cases h
              simp
    | oneShot =>
      simp only [planSchedule] at h
      split at h
      · cases h
      · split at h
        · cases h
        · cases h
          simp
    | immediate =>
      cases h
      simp
  have hparse : ∀ {scheduleType}, ScheduleType.parse args.scheduleType = some scheduleType →
      (scheduleType = .recurring ↔ args.scheduleType = "recurring") := by
    intro scheduleType hparse
    unfold ScheduleType.parse at hparse
    split at hparse
    · next heq =>
      cases hparse
      simp [heq]
    · split at hparse
      · next heq =>
        cases hparse
        simp [heq]
      · split at hparse
        · next heq =>
          cases hparse
          simp [heq]
        · cases hparse
  unfold planCreate at h
  cases htype : ScheduleType.parse args.scheduleType with
  | none => simp [htype] at h
  | some scheduleType =>
    rw [← hparse htype]
    simp only [htype] at h
    split at h
    · cases h
    · split at h
      · cases h
      · split at h
        · cases h
        · split at h
          · cases h
          · rw [← hplan h]
            unfold Job.new
            cases plan.cronExpr with
            | none => simp
            | some cronExpr => simp

/-- One more job of the kind is the job that the request inserts. -/
theorem wouldExceed_iff_inserted {libs : Libs} {now : Int} {args : CreateArgs} {plan : CreatePlan}
    (h : planCreate libs now args = .ok plan) (limits : ContainmentLimits) (jobs : List Job) :
    WouldExceed limits jobs args.userId (args.scheduleType == "recurring") ↔
      ((Job.new args plan).jobType = .recurring ∧
          limits.activeRecurringPerUser <
            activeRecurring (jobs ++ [Job.new args plan]) args.userId) ∨
        limits.activeTotalPerUser < activeTotal (jobs ++ [Job.new args plan]) args.userId ∨
        ((Job.new args plan).jobType = .recurring ∧
          limits.globalActiveRecurring < globalRecurring (jobs ++ [Job.new args plan])) := by
  have hstate : (Job.new args plan).state = .active := rfl
  have huser : (Job.new args plan).userId = args.userId := rfl
  have htype := planCreate_recurring h
  unfold WouldExceed activeRecurring activeTotal globalRecurring
  simp only [beq_iff_eq, ← htype, List.countP_append, List.countP_singleton, huser, hstate]
  by_cases hrec : (Job.new args plan).jobType = .recurring
  · simp [hrec]
  · simp [hrec]

section Quota

variable {Blob : Type} {cfg : Settings Blob} {lib : CreateLibs} {userId : String}
  {start : Int} {pick : Nat → Bool} {x : Db}

/-- A cap counts the jobs of the table. -/
theorem checkCap_alone (p : Job → Bool) (limit : Nat) (reason : String)
    (rest : Txn ContainmentDecision) : x.alone start pick (checkCap p limit reason rest) =
      if limit ≤ x.tables.jobs.countP p then some (.ok (.reject reason retryAfter), x)
      else x.alone start pick rest := by
  have hrun : (checkCap p limit reason rest).run (Stmt.exec pick [] x.tables) (x.seq, { start }) =
      if limit ≤ x.tables.jobs.countP p then
        some (.ok (.reject reason retryAfter), x.seq, { start })
      else rest.run (Stmt.exec pick [] x.tables) (x.seq, { start }) := by
    rw [List.countP_eq_length_filter]
    change (if limit ≤ (x.tables.jobs.filter p).length then
      Program.ret (.reject reason retryAfter) else rest).run _ _ = _
    split <;> rfl
  unfold Db.alone
  rw [hrun]
  by_cases hle : limit ≤ x.tables.jobs.countP p
  · rw [if_pos hle, if_pos hle]
    rfl
  · rw [if_neg hle, if_neg hle]

/-- Whatever is asked for, the gate rejects for the first cap that is reached. -/
theorem overQuota_eq (cfg : Settings Blob) (lib : CreateLibs) (userId : String) (start : Int)
    (pick : Nat → Bool) (x : Db) : overQuota cfg lib userId start pick x =
      (reachedCap cfg.containmentLimits x.tables.jobs userId).map
        fun reason => quotaExceeded reason retryAfter := by
  have hcheck : x.alone start pick (checkContainment userId cfg.containmentLimits false) =
      if cfg.containmentLimits.activeRecurringPerUser ≤ activeRecurring x.tables.jobs userId then
        some (.ok (.reject "active_recurring_per_user" retryAfter), x)
      else if cfg.containmentLimits.activeTotalPerUser ≤ activeTotal x.tables.jobs userId then
        some (.ok (.reject "active_total_per_user" retryAfter), x)
      else if cfg.containmentLimits.globalActiveRecurring ≤ globalRecurring x.tables.jobs then
        some (.ok (.reject "global_active_recurring" retryAfter), x)
      else some (.ok .allow, x) := by
    unfold checkContainment checkTotal checkGlobal
    rw [if_neg Bool.false_ne_true, checkCap_alone, checkCap_alone, checkCap_alone]
    rfl
  unfold overQuota reachedCap
  rw [hcheck]
  by_cases hown : cfg.containmentLimits.activeRecurringPerUser ≤
      activeRecurring x.tables.jobs userId
  · rw [if_pos hown, if_pos hown]
    rfl
  rw [if_neg hown, if_neg hown]
  by_cases htotal : cfg.containmentLimits.activeTotalPerUser ≤ activeTotal x.tables.jobs userId
  · rw [if_pos htotal, if_pos htotal]
    rfl
  rw [if_neg htotal, if_neg htotal]
  by_cases hglobal : cfg.containmentLimits.globalActiveRecurring ≤ globalRecurring x.tables.jobs
  · rw [if_pos hglobal, if_pos hglobal]
    rfl
  · rw [if_neg hglobal, if_neg hglobal]
    rfl

/-! ### Which gate an envelope comes from -/

theorem CreateReply.IsQuotaExceeded.field {reply : CreateReply} (h : reply.IsQuotaExceeded) :
    reply.field = some "user_id" := by
  obtain ⟨reason, retryAfterSeconds, rfl⟩ := h
  rfl

/-- A domain error names the argument that it is about, or none. -/
theorem mapDomainError_field (lib : CreateLibs) (e : Err) :
    (mapDomainError lib e).field ∈ [none, some "action", some "schedule_type", some "cron_expr",
      some "scheduled_at", some "timezone", some "trigger_on_job_id"] := by
  cases e <;> simp only [mapDomainError, CreateReply.field] <;> decide

theorem literalSecret_field {args : CreateArguments} {e : CreateReply}
    (h : literalSecret lib args = some e) : e.field = some "action_params" := by
  obtain ⟨p, -, rfl⟩ := Option.map_eq_some_iff.mp h
  rfl

theorem backpressure_field {depth : Nat} {e : CreateReply}
    (h : backpressure cfg depth = some e) : e.field = some "queue_depth" := by
  unfold backpressure at h
  split at h
  · obtain rfl := Option.some.inj h
    rfl
  · cases h

theorem triggerOnJobId_field {args : CreateArguments} {e : CreateReply}
    (h : triggerOnJobId lib args = .error e) : e.field = some "trigger_on_job_id" := by
  unfold triggerOnJobId at h
  split at h
  · cases h
  · split at h
    · cases h
    · obtain rfl := Except.error.inj h
      rfl

theorem rateLimited_not_quotaExceeded {jobs : List Job} {now : Int} {e : CreateReply}
    (h : rateLimited cfg userId jobs now = some e) : ¬e.IsQuotaExceeded := by
  rintro ⟨reason, retryAfterSeconds, rfl⟩
  unfold rateLimited at h
  split at h
  · cases h
  · have hmessage := (CreateReply.error.inj (Option.some.inj h)).2.1
    -- the two messages begin with different letters
    have hhead := congrArg (fun s : String => s.toList.head?) hmessage
    simp [String.toList_append] at hhead
  · have hfield := (CreateReply.error.inj (Option.some.inj h)).2.2.1
    cases hfield

theorem checkOauthConnection_field {fromisoformat : String → Option Int}
    {action : Option String} {w : World Blob} {e : CreateReply}
    (h : checkOauthConnection cfg lib fromisoformat action userId w = some e) :
    e.field = none := by
  unfold checkOauthConnection at h
  split at h
  · split at h
    · obtain rfl := Option.some.inj h
      rfl
    · cases h
  · cases h

/-- The request comes to the gates that the operator need not pass. -/
structure ComesToLimits (cfg : Settings Blob) (lib : CreateLibs) (args : CreateArguments)
    (meets : Meets) : Prop where
  secret : Secrets.detectLiteralSecret lib.isalnum args.actionParams = none
  depth : meets.queueDepth < cfg.overloadBackpressureQueueDepth
  trigger : ∀ raw, args.triggerOnJobId = some raw → (lib.jobId raw).isSome = true

/-- The request comes to the gate of the containment caps. -/
structure ComesToQuota (cfg : Settings Blob) (lib : CreateLibs) (userId : String)
    (args : CreateArguments) (meets : Meets) (jobs : List Job) : Prop
    extends ComesToLimits cfg lib args meets where
  rate : checkRateLimit userId jobs cfg.rateLimits meets.checkedAt = .ok .allow

theorem literalSecret_eq_none {args : CreateArguments} : literalSecret lib args = none ↔
    Secrets.detectLiteralSecret lib.isalnum args.actionParams = none := by
  unfold literalSecret
  rw [Option.map_eq_none_iff]

theorem backpressure_eq_none {depth : Nat} :
    backpressure cfg depth = none ↔ depth < cfg.overloadBackpressureQueueDepth := by
  unfold backpressure
  split <;> simp <;> omega

theorem triggerOnJobId_isOk {args : CreateArguments} : (∃ t, triggerOnJobId lib args = .ok t) ↔
    ∀ raw, args.triggerOnJobId = some raw → (lib.jobId raw).isSome = true := by
  unfold triggerOnJobId
  cases args.triggerOnJobId with
  | none => simp
  | some raw =>
    simp only [Option.some.injEq, forall_eq']
    cases lib.jobId raw with
    | none => simp
    | some jobId => simp

theorem rateLimited_eq_none {jobs : List Job} {now : Int} :
    rateLimited cfg userId jobs now = none ↔
      checkRateLimit userId jobs cfg.rateLimits now = .ok .allow := by
  unfold rateLimited
  split <;> simp_all

variable {libs : Libs} {fromisoformat : String → Option Int} {tzHeader : Option String}
  {args : CreateArguments} {meets : Meets} {w : World Blob}

/-- An envelope of the gates before the limits does not name the user. -/
theorem handleTaskCreate_early (h : ¬ComesToLimits cfg lib args meets) :
    (handleTaskCreate cfg lib libs fromisoformat tzHeader userId args meets w x).1.field ≠
      some "user_id" := by
  unfold handleTaskCreate
  cases hearly : (literalSecret lib args).or (backpressure cfg meets.queueDepth) with
  | some e =>
    rcases Option.or_eq_some_iff.mp hearly with he | ⟨-, he⟩
    · simp only [literalSecret_field he]
      decide
    · simp only [backpressure_field he]
      decide
  | none =>
    obtain ⟨hsecret, hdepth⟩ := Option.or_eq_none_iff.mp hearly
    cases htrigger : triggerOnJobId lib args with
    | error e =>
      simp only [triggerOnJobId_field htrigger]
      decide
    | ok t =>
      exact absurd ⟨literalSecret_eq_none.mp hsecret, backpressure_eq_none.mp hdepth,
        triggerOnJobId_isOk.mp ⟨t, htrigger⟩⟩ h

/-- A request that comes to the limits gets the envelope of one of them, or one that does not name
the user. -/
theorem handleTaskCreate_late (libs : Libs) (fromisoformat : String → Option Int)
    (tzHeader : Option String) (userId : String) (w : World Blob) (x : Db)
    (h : ComesToLimits cfg lib args meets) :
    ∃ reply : CreateReply, reply.field ≠ some "user_id" ∧
      (handleTaskCreate cfg lib libs fromisoformat tzHeader userId args meets w x).1 =
        (if isOperator cfg.operatorUserId userId then none
          else userGates cfg lib fromisoformat userId args meets w x).getD reply := by
  obtain ⟨t, ht⟩ := triggerOnJobId_isOk.mpr h.trigger
  unfold handleTaskCreate
  rw [literalSecret_eq_none.mpr h.secret, backpressure_eq_none.mpr h.depth, ht]
  simp only [Option.none_or]
  cases (if isOperator cfg.operatorUserId userId then none
    else userGates cfg lib fromisoformat userId args meets w x) with
  | some e => exact ⟨.success 0, (Option.some_ne_none _).symm, rfl⟩
  | none =>
    simp only [Option.getD_none]
    split
    · next jobId _ _ => exact ⟨.success jobId, (Option.some_ne_none _).symm, rfl⟩
    · next e _ _ =>
      refine ⟨_, fun hfield => ?_, rfl⟩
      have hmem := mapDomainError_field lib e
      rw [hfield] at hmem
      exact absurd hmem (by decide)
    · exact ⟨.error "INTERNAL" "An unexpected error occurred." none none none,
        (Option.some_ne_none _).symm, rfl⟩

/-- A request of a user is rejected for quota reasons when it comes to the gate while a count has
reached its cap, and the envelope names the first such cap. -/
theorem handleTaskCreate_quotaExceeded (hop : isOperator cfg.operatorUserId userId = false)
    (reason : String) (seconds : Int) :
    (handleTaskCreate cfg lib libs fromisoformat tzHeader userId args meets w x).1 =
        quotaExceeded reason seconds ↔
      ComesToQuota cfg lib userId args meets x.tables.jobs ∧
        reachedCap cfg.containmentLimits x.tables.jobs userId = some reason ∧
        seconds = retryAfter := by
  by_cases hlimits : ComesToLimits cfg lib args meets
  · obtain ⟨reply, hreply, heq⟩ :=
      handleTaskCreate_late libs fromisoformat tzHeader userId w x hlimits
    rw [heq, hop, if_neg Bool.false_ne_true]
    unfold userGates
    cases hrate : rateLimited cfg userId x.tables.jobs meets.checkedAt with
    | some e =>
      rw [Option.some_or, Option.getD_some]
      refine ⟨fun h => absurd ⟨_, _, h⟩ (rateLimited_not_quotaExceeded hrate), fun ⟨h, _⟩ => ?_⟩
      rw [rateLimited_eq_none.mpr h.rate] at hrate
      cases hrate
    | none =>
      have hcomes : ComesToQuota cfg lib userId args meets x.tables.jobs :=
        ⟨hlimits, rateLimited_eq_none.mp hrate⟩
      rw [Option.none_or, overQuota_eq]
      cases hcap : reachedCap cfg.containmentLimits x.tables.jobs userId with
      | some cap =>
        rw [Option.map_some, Option.some_or, Option.getD_some, quotaExceeded_inj]
        simp only [hcomes, true_and, Option.some.injEq]
        exact and_congr_right fun _ => eq_comm
      | none =>
        -- behind the gate no envelope names the user
        rw [Option.map_none, Option.none_or]
        refine ⟨fun h => ?_, fun ⟨_, h, _⟩ => (by cases h)⟩
        have hfield : (quotaExceeded reason seconds).field = some "user_id" := rfl
        rw [← h] at hfield
        refine absurd hfield ?_
        cases hoauth : checkOauthConnection cfg lib fromisoformat args.action userId w with
        | some e =>
          rw [Option.getD_some, checkOauthConnection_field hoauth]
          decide
        | none => exact hreply
  · refine ⟨fun h => ?_, fun ⟨h, _⟩ => absurd h.toComesToLimits hlimits⟩
    exact absurd (CreateReply.IsQuotaExceeded.field ⟨_, _, h⟩) (handleTaskCreate_early hlimits)

/-- The gate rejects the request just when the job that it asks for would make a count exceed its
cap, and never for a cap on recurring jobs when it asks for none. -/
structure AdmissionExact (cfg : Settings Blob) (lib : CreateLibs) (libs : Libs)
    (fromisoformat : String → Option Int) (tzHeader : Option String) (userId : String)
    (args : CreateArguments) (meets : Meets) (w : World Blob) (x : Db) : Prop where
  rejects : (handleTaskCreate cfg lib libs fromisoformat tzHeader userId args meets w
      x).1.IsQuotaExceeded ↔
    WouldExceed cfg.containmentLimits x.tables.jobs userId args.recurring
  recurring : args.recurring = false → ∀ reason ∈ recurringCaps, ∀ seconds,
    (handleTaskCreate cfg lib libs fromisoformat tzHeader userId args meets w x).1 ≠
      quotaExceeded reason seconds

/-- For a request that comes to the gate: it is for a recurring job, or the user has room for one
more recurring job and the total cap is reached or there is room for one globally. -/
def CapsAgree (limits : ContainmentLimits) (jobs : List Job) (userId : String)
    (recurring : Bool) : Prop :=
  recurring = true ∨ activeRecurring jobs userId < limits.activeRecurringPerUser ∧
    (limits.activeTotalPerUser ≤ activeTotal jobs userId ∨
      globalRecurring jobs < limits.globalActiveRecurring)

theorem reachedCap_isSome {limits : ContainmentLimits} {jobs : List Job} :
    (reachedCap limits jobs userId).isSome = true ↔
      limits.activeRecurringPerUser ≤ activeRecurring jobs userId ∨
        limits.activeTotalPerUser ≤ activeTotal jobs userId ∨
        limits.globalActiveRecurring ≤ globalRecurring jobs := by
  unfold reachedCap
  split
  · next hown => exact iff_of_true rfl (.inl hown)
  · next hown =>
    split
    · next htotal => exact iff_of_true rfl (.inr (.inl htotal))
    · next htotal =>
      split
      · next hglobal => exact iff_of_true rfl (.inr (.inr hglobal))
      · next hglobal => exact iff_of_false Bool.false_ne_true (by omega)

/-- The total cap is looked at between the two on recurring jobs. -/
theorem reachedCap_recurring {limits : ContainmentLimits} {jobs : List Job} :
    (∃ reason ∈ recurringCaps, reachedCap limits jobs userId = some reason) ↔
      limits.activeRecurringPerUser ≤ activeRecurring jobs userId ∨
        activeTotal jobs userId < limits.activeTotalPerUser ∧
          limits.globalActiveRecurring ≤ globalRecurring jobs := by
  unfold reachedCap recurringCaps
  split
  · next hown => exact iff_of_true ⟨_, List.mem_cons_self, rfl⟩ (.inl hown)
  · next hown =>
    split
    · next htotal =>
      refine iff_of_false ?_ (by omega)
      rintro ⟨reason, hreason, heq⟩
      cases heq
      exact absurd hreason (by decide)
    · next htotal =>
      split
      · next hglobal =>
        exact iff_of_true ⟨_, List.mem_cons_of_mem _ List.mem_cons_self, rfl⟩ (by omega)
      · next hglobal =>
        refine iff_of_false ?_ (by omega)
        rintro ⟨reason, -, heq⟩
        cases heq

/-- At the gate, the first cap that is reached is the right answer just when the caps agree. -/
theorem reachedCap_iff {limits : ContainmentLimits} {jobs : List Job} {recurring : Bool} :
    (((reachedCap limits jobs userId).isSome = true ↔
        WouldExceed limits jobs userId recurring) ∧
      (recurring = false → ∀ reason ∈ recurringCaps,
        reachedCap limits jobs userId ≠ some reason)) ↔
    CapsAgree limits jobs userId recurring := by
  have hreasons : (∀ reason ∈ recurringCaps, reachedCap limits jobs userId ≠ some reason) ↔
      ¬(limits.activeRecurringPerUser ≤ activeRecurring jobs userId ∨
        activeTotal jobs userId < limits.activeTotalPerUser ∧
          limits.globalActiveRecurring ≤ globalRecurring jobs) := by
    rw [← reachedCap_recurring]
    push Not
    exact Iff.rfl
  rw [reachedCap_isSome, hreasons]
  unfold WouldExceed CapsAgree
  cases recurring with
  | true =>
    refine iff_of_true ⟨?_, fun h => (by cases h)⟩ (.inl rfl)
    simp only [true_and]
    omega
  | false =>
    simp only [Bool.false_eq_true, false_and, false_or, or_false, true_implies]
    omega

/-- Admission is exact just for the requests that come to the gate while the caps agree with what
is asked for; a request that is answered before must not be over a cap. -/
theorem admissionExact_iff (cfg : Settings Blob) (lib : CreateLibs) (libs : Libs)
    (fromisoformat : String → Option Int) (tzHeader : Option String) (userId : String)
    (args : CreateArguments) (meets : Meets) (w : World Blob) (x : Db)
    (hop : isOperator cfg.operatorUserId userId = false) :
    AdmissionExact cfg lib libs fromisoformat tzHeader userId args meets w x ↔
      (ComesToQuota cfg lib userId args meets x.tables.jobs →
        CapsAgree cfg.containmentLimits x.tables.jobs userId args.recurring) ∧
      (¬ComesToQuota cfg lib userId args meets x.tables.jobs →
        ¬WouldExceed cfg.containmentLimits x.tables.jobs userId args.recurring) := by
  have hverdict : ∀ reason seconds, (handleTaskCreate cfg lib libs fromisoformat tzHeader userId args
      meets w x).1 = quotaExceeded reason seconds ↔
        ComesToQuota cfg lib userId args meets x.tables.jobs ∧
          reachedCap cfg.containmentLimits x.tables.jobs userId = some reason ∧
          seconds = retryAfter :=
    handleTaskCreate_quotaExceeded hop
  by_cases hcomes : ComesToQuota cfg lib userId args meets x.tables.jobs
  · simp only [hcomes, true_and] at hverdict
    have hrejects : (handleTaskCreate cfg lib libs fromisoformat tzHeader userId args meets w
        x).1.IsQuotaExceeded ↔
        (reachedCap cfg.containmentLimits x.tables.jobs userId).isSome = true := by
      rw [Option.isSome_iff_exists]
      constructor
      · rintro ⟨reason, seconds, h⟩
        exact ⟨reason, ((hverdict reason seconds).mp h).1⟩
      · rintro ⟨reason, h⟩
        exact ⟨reason, retryAfter, (hverdict reason _).mpr ⟨h, rfl⟩⟩
    have hreasons : (∀ reason ∈ recurringCaps, ∀ seconds,
        (handleTaskCreate cfg lib libs fromisoformat tzHeader userId args meets w x).1 ≠
          quotaExceeded reason seconds) ↔
        ∀ reason ∈ recurringCaps,
          reachedCap cfg.containmentLimits x.tables.jobs userId ≠ some reason := by
      refine forall₂_congr fun reason _ => ⟨fun h hcap => ?_, fun h seconds hreply => ?_⟩
      · exact h retryAfter ((hverdict reason _).mpr ⟨hcap, rfl⟩)
      · exact h ((hverdict reason seconds).mp hreply).1
    simp only [hcomes, true_implies, not_true, false_implies, and_true]
    rw [← reachedCap_iff, ← hrejects, ← hreasons]
    exact ⟨fun h => ⟨h.rejects, h.recurring⟩, fun h => ⟨h.1, h.2⟩⟩
  · simp only [hcomes, false_and, iff_false] at hverdict
    simp only [hcomes, not_false_iff, false_implies, true_and, true_implies]
    constructor
    · intro h hover
      obtain ⟨reason, seconds, hreply⟩ := h.rejects.mpr hover
      exact hverdict reason seconds hreply
    · intro h
      refine ⟨⟨fun ⟨reason, seconds, hreply⟩ => ?_, fun hover => absurd hover h⟩, ?_⟩
      · exact absurd hreply (hverdict reason seconds)
      · exact fun _ reason _ seconds => hverdict reason seconds

end Quota

/-- An active recurring job. -/
def recurringJob (jobId : Nat) (userId : String) : Job where
  jobId := jobId
  userId := userId
  action := "echo"
  jobType := .recurring
  scheduledAt := none
  cronExpr := some "0 8 * * *"
  timezone := "UTC"
  cancelledAt := none
  triggerOnJobId := none
  triggerOnStatus := none
  idempotencyKey := none
  state := .active
  createdAt := -day
  updatedAt := -day

/-- Limits that leave room for one recurring job and for ten jobs. -/
def tightSettings : Settings JsonObject where
  operatorUserId := none
  overloadBackpressureQueueDepth := 500
  overloadRetryAfterSeconds := 10
  rateLimits := ⟨100, 5⟩
  containmentLimits := ⟨1, 10, 500⟩
  connectionsBaseUrl := "http://localhost:8000"
  mcpUserTz := none
  envelope := none

def plainCreateLibs : CreateLibs where
  repr s := "'" ++ s ++ "'"
  isalnum c := c.isAlphanum
  jobId _ := none
  capitalize s := s
  badDate := "failed to find next date"

def plainLibs : Libs where
  zoneInfo _ := true
  isValid _ := true
  getNext _ _ now := some (now + 1)
  fromIsoFormat _ _ := none

/-- A quiet hour: the queue is empty, and the transactions start at the epoch. -/
def quietHour : Meets := ⟨0, 0, 0, 0, fun _ => true⟩

/-- A user with one recurring job. -/
def oneRecurring : Db := ⟨⟨[recurringJob 1 "u"], [], []⟩, ⟨2, 1, 1⟩⟩

/-- A request for another recurring job is rejected as it should be. -/
theorem recurring_exact : AdmissionExact tightSettings plainCreateLibs plainLibs (fun _ => none)
    none "u" { action := some "echo", scheduleType := "recurring", cronExpr := some "0 8 * * *" }
    quietHour ⟨[], [], []⟩ oneRecurring := by
  refine (admissionExact_iff _ _ _ _ _ _ _ _ _ _ (by decide)).mpr
    ⟨fun _ => .inl rfl, fun h => ?_⟩
  exact absurd ⟨⟨rfl, by decide, nofun⟩, rfl⟩ h

/-- A user with one recurring job, the cap, asks for an immediate one: the request is rejected for
the cap on recurring jobs. -/
theorem immediate_not_exact : ¬AdmissionExact tightSettings plainCreateLibs plainLibs
    (fun _ => none) none "u" { action := some "echo" } quietHour ⟨[], [], []⟩ oneRecurring := by
  intro h
  have hrejected : (handleTaskCreate tightSettings plainCreateLibs plainLibs (fun _ => none) none
      "u" { action := some "echo" } quietHour ⟨[], [], []⟩ oneRecurring).1 =
        quotaExceeded "active_recurring_per_user" 60 := by
    decide +kernel
  have hover := h.rejects.mp ⟨_, _, hrejected⟩
  unfold WouldExceed at hover
  exact absurd hover (by decide)

end TaskScheduler.Mcp
