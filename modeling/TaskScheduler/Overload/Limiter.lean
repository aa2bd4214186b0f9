import TaskScheduler.Lib.EventLoop
import TaskScheduler.Mcp.Endpoint

/-! The in-flight limit of the HTTP endpoint: `ConcurrencyLimiter` of `app/overload/health.py` and the
requests that take its slots in `app/entrypoints/mcp_http.py`, on one event loop, where any request
may be cancelled at any point at which it sleeps.  The lock of the limiter is held over no sleep, so
no request ever waits for it, and no slot is lost. -/

namespace TaskScheduler.Overload

open Lib Mcp Ratelimit

/-! ### The limiter -/

/-- The exceptions of a request. -/
inductive Exc
  | cancelled
  | capacityExceeded (message : String)
  | runtimeError
  | other
  deriving DecidableEq

/-- Where a request sleeps: in the rate limiter's session, in the MCP server, or in a send. -/
inductive Place
  | rateLimit
  | handler
  | sending (response : Response)
  deriving DecidableEq

/-- A piece of a request, over the counter `_inflight` of the limiter. -/
abbrev Piece := Coroutine Int Place Exc

/-- `async with self._lock`. -/
def withLock {α : Type} (body : Piece α) : Piece α :=
  .op .acquire fun (cancelled : Bool) =>
    if cancelled then .raise .cancelled
    else body.settle fun res =>
      .op .release fun (held : Bool) => if held then Program.ofExcept res else .raise .runtimeError

/-- The critical section that takes a slot. -/
def takeSlot (limit : Int) : Piece Unit :=
  .op .get fun (inflight : Int) =>
    if inflight ≥ limit then
      .raise (.capacityExceeded ("Concurrency limit " ++ toString limit ++ " reached (" ++
        toString inflight ++ " requests in flight)"))
    else .op (.put (inflight + 1)) fun _ => .ret ()

/-- The critical section that gives it back. -/
def giveSlot : Piece Unit :=
  .op .get fun (inflight : Int) => .op (.put (inflight - 1)) fun _ => .ret ()

/-- `async with limiter.acquire(): body`. -/
def acquire {α : Type} (limit : Int) (body : Piece α) : Piece α := do
  withLock (takeSlot limit)
  body.tryFinally (withLock giveSlot)

/-! ### The requests -/

/-- What a request brings: whether its scope is `http`, what `should_shed` says, its headers, and what it does while
it sleeps, in the rate limiter, in the MCP server and in the sends. -/
structure Incoming where
  http : Bool
  shed : Bool
  request : HttpRequest
  rateLimit : String → Piece RateLimitDecision
  handleMcp : String → Piece Unit
  send : Response → Piece Unit

/-- What the endpoint is configured with here. -/
structure LimiterSettings where
  http : HttpSettings
  connectionsBaseUrl : String
  limit : Int
  retryAfterSeconds : Nat

/-- The answer to a request that is shed. -/
def overloaded (cfg : LimiterSettings) : Response :=
  .serviceUnavailable "Service is temporarily overloaded. Please retry later." cfg.retryAfterSeconds

/-- The answer to a request that finds no slot. -/
def tooBusy (cfg : LimiterSettings) : Response :=
  .serviceUnavailable "Too many concurrent requests. Please retry later." cfg.retryAfterSeconds

/-- Sends a response, which is the answer. -/
def answer (x : Incoming) (response : Response) : Piece (Option Response) := do
  x.send response
  return some response

/-- `_McpHttpEndpoint.__call__`: the answer that it sends itself, if it does. -/
def call (cfg : LimiterSettings) (x : Incoming) : Piece (Option Response) :=
  if !x.http then return none
  else if x.shed then answer x (overloaded cfg)
  else
    match resolveUserId cfg.http cfg.connectionsBaseUrl x.request with
    | .error .internalServerError => .raise .other
    | .error response => answer x response
    | .ok userId => do
      match ← x.rateLimit userId with
      | .reject reason retryAfterSeconds => answer x (tooManyRequests reason retryAfterSeconds)
      | .allow =>
        (acquire cfg.limit (x.handleMcp userId)).settle fun
          | .ok () => .ret none
          | .error (.capacityExceeded _) => answer x (tooBusy cfg)
          | .error e => .raise e

/-- The piece sleeps at one place only, and leaves the limiter and its exception alone. -/
def SleepsAt {α : Type} (place : Place) : Piece α → Prop
  | .ret _ => True
  | .raise e => ∀ message, e ≠ .capacityExceeded message
  | .op (.sleep place') k => place' = place ∧ ∀ r, SleepsAt place (k r)
  | .op _ _ => False

/-- Each part of the request sleeps at its own place. -/
structure Incoming.Parts (x : Incoming) : Prop where
  rateLimit : ∀ userId, SleepsAt .rateLimit (x.rateLimit userId)
  handleMcp : ∀ userId, SleepsAt .handler (x.handleMcp userId)
  send : ∀ response, SleepsAt (.sending response) (x.send response)

/-- The requests of the endpoint. -/
def Serves (cfg : LimiterSettings) (p : Piece (Option Response)) : Prop :=
  ∃ x : Incoming, x.Parts ∧ p = call cfg x

/-! ### What a stretch of a request does -/

/-- The slots of a request that sleeps there. -/
def slots : Option Place → Int
  | some .handler => 1
  | _ => 0

/-- The contract of the requests: a request has a slot while it sleeps in the MCP server; it takes one
only if there is one, and is told that there is none only if there is none. -/
def contract (cfg : LimiterSettings) : Contract Int Place Exc (Option Response) where
  sleeps place before place' now := now = before + slots (some place') - slots place ∧
    (place' = .handler → place ≠ some .handler → before < cfg.limit) ∧
    (place' = .sending (tooBusy cfg) → place ≠ some place' → cfg.limit ≤ before)
  ends place before res now := now = before - slots place ∧
    (res = .ok (some (tooBusy cfg)) → place ≠ some (.sending (tooBusy cfg)) → cfg.limit ≤ before)

section Pieces

variable {cfg : LimiterSettings} {x : Incoming} {α : Type} {y : Stretch Int Place}

/-- A piece that only sleeps, at one place. -/
theorem wp_sleepsAt {place : Place} {t : Piece α} (ht : SleepsAt place t)
    {T : Option Place → Int → Place → Int → Prop} {Q : Except Exc α → Stretch Int Place → Prop}
    (hheld : y.held = false) (hfirst : T y.place y.before place y.now)
    (hstay : ∀ s, T (some place) s place s)
    (hQ : ∀ res z, (∀ message, res ≠ .error (.capacityExceeded message)) →
      z = y ∨ (∃ s, z = .at_ (some place) s) → Q res z) : t.wp T Q y := by
  induction t generalizing y with
  | ret a => exact hQ _ y (fun message => by exact nofun) (.inl rfl)
  | raise e => exact hQ _ y (fun message h => ht message (Except.error.inj h)) (.inl rfl)
  | op s k ih =>
    cases s with
    | get | put | acquire | release => exact ht.elim
    | sleep place' =>
      obtain ⟨rfl, hk⟩ := ht
      refine ⟨hheld, hfirst, fun r s => ih r (hk r) rfl (hstay s) fun res z hres hz => ?_⟩
      refine hQ res z hres ?_
      rcases hz with rfl | hz
      · exact .inr ⟨s, rfl⟩
      · exact .inr hz

theorem wp_takeSlot {T : Option Place → Int → Place → Int → Prop}
    {Q : Except Exc Unit → Stretch Int Place → Prop} {limit : Int} (hheld : y.held = false)
    (hfull : limit ≤ y.now → ∀ message, Q (.error (.capacityExceeded message)) y)
    (hfree : y.now < limit → Q (.ok ()) { y with now := y.now + 1 }) :
    (withLock (takeSlot limit)).wp T Q y := by
  refine ⟨hheld, ?_⟩
  obtain ⟨place, before, now, held⟩ := y
  dsimp only at hheld hfull hfree ⊢
  subst hheld
  refine Coroutine.wp_settle ?_
  unfold takeSlot
  change Coroutine.wp T _ (if now ≥ limit then _ else _) _
  split
  · next hge => exact ⟨rfl, hfull hge _⟩
  · next hlt => exact ⟨rfl, hfree (by omega)⟩

theorem wp_giveSlot {T : Option Place → Int → Place → Int → Prop}
    {Q : Except Exc Unit → Stretch Int Place → Prop} (hheld : y.held = false)
    (h : Q (.ok ()) { y with now := y.now - 1 }) : (withLock giveSlot).wp T Q y := by
  obtain ⟨place, before, now, held⟩ := y
  dsimp only at hheld h ⊢
  subst hheld
  exact ⟨rfl, rfl, h⟩

/-- A response is sent by a request that has given its slot back, if it had one. -/
theorem answer_holds (hx : x.Parts) {response : Response} (hheld : y.held = false)
    (hnow : y.now = y.before - slots y.place)
    (hbusy : response = tooBusy cfg → cfg.limit ≤ y.before) :
    (contract cfg).Holds (answer x response) y := by
  refine Coroutine.wp_bind (wp_sleepsAt (hx.send response) hheld ?_ ?_ ?_)
  · refine ⟨by simpa [slots] using hnow, nofun, fun h _ => hbusy ?_⟩
    cases h
    rfl
  · exact fun s => ⟨by simp, nofun, fun h hne => absurd rfl hne⟩
  · rintro res z - hz
    have hz : z.held = false ∧ z.now = z.before - slots z.place ∧
        (response = tooBusy cfg → z.place ≠ some (.sending response) → cfg.limit ≤ z.before) := by
      rcases hz with rfl | ⟨s, rfl⟩
      · exact ⟨hheld, hnow, fun h _ => hbusy h⟩
      · exact ⟨rfl, by simp [Stretch.at_, slots], fun _ hne => absurd rfl hne⟩
    cases res with
    | ok a =>
      refine ⟨hz.1, hz.2.1, fun h hne => ?_⟩
      obtain rfl : response = tooBusy cfg := Option.some.inj (Except.ok.inj h)
      exact hz.2.2 rfl hne
    | error e => exact ⟨hz.1, hz.2.1, nofun⟩

theorem resolveUserId_not_tooBusy {http : HttpSettings} {base : String} {request : HttpRequest} :
    resolveUserId http base request ≠ .error (tooBusy cfg) := by
  unfold resolveUserId tooBusy
  split
  · exact nofun
  · split
    · exact nofun
    · split <;> exact nofun

/-- The body under `acquire`, from a stretch without a slot. -/
theorem acquire_holds {body : Piece Unit} (hbody : SleepsAt .handler body)
    {handler : Except Exc Unit → Piece (Option Response)} (hheld : y.held = false)
    (hnow : y.now = y.before) (hplace : slots y.place = 0)
    (hfull : cfg.limit ≤ y.before → ∀ message,
      (contract cfg).Holds (handler (.error (.capacityExceeded message))) y)
    (hdone : ∀ res z, (∀ message, res ≠ .error (.capacityExceeded message)) → z.held = false →
      z.now = z.before - slots z.place → (contract cfg).Holds (handler res) z) :
    (contract cfg).Holds ((acquire cfg.limit body).settle handler) y := by
  refine Coroutine.wp_settle (Coroutine.wp_bind (wp_takeSlot hheld ?_ ?_))
  · exact fun hle message => hfull (hnow ▸ hle) message
  intro hlt
  refine Coroutine.wp_settle (wp_sleepsAt hbody hheld ?_ ?_ ?_)
  · refine ⟨?_, fun _ _ => hnow ▸ hlt, nofun⟩
    show y.now + 1 = y.before + 1 - slots y.place
    omega
  · exact fun s => ⟨by simp, fun _ hne => absurd rfl hne, nofun⟩
  intro res z hres hz
  have hz : z.held = false ∧ z.now - 1 = z.before - slots z.place := by
    rcases hz with rfl | ⟨s, rfl⟩
    · refine ⟨hheld, ?_⟩
      show y.now + 1 - 1 = y.before - slots y.place
      omega
    · exact ⟨rfl, rfl⟩
  refine Coroutine.wp_bind (wp_giveSlot hz.1 ?_)
  have h := hdone res { z with now := z.now - 1 } hres hz.1 hz.2
  cases res with
  | ok a => exact h
  | error e => exact h

/-- Every request keeps to the contract. -/
theorem call_holds (hx : x.Parts) (s : Int) : (contract cfg).Holds (call cfg x) (.at_ none s) := by
  have hnone : (Stretch.at_ (π := Place) none s).now = s - slots none := by simp [Stretch.at_, slots]
  unfold call
  split
  · exact ⟨rfl, hnone, nofun⟩
  split
  · exact answer_holds hx rfl hnone (by simp [overloaded, tooBusy])
  split
  · exact ⟨rfl, hnone, nofun⟩
  · next response _ hres =>
    refine answer_holds hx rfl hnone fun h => ?_
    exact absurd (h ▸ hres) resolveUserId_not_tooBusy
  next userId hres =>
  refine Coroutine.wp_bind (wp_sleepsAt (hx.rateLimit userId) rfl ?_ ?_ ?_)
  · exact ⟨by simp [Stretch.at_, slots], nofun, nofun⟩
  · exact fun s => ⟨by simp, nofun, nofun⟩
  intro res z _ hz
  have hz : z.held = false ∧ z.now = z.before ∧ slots z.place = 0 := by
    rcases hz with rfl | ⟨s, rfl⟩
    · exact ⟨rfl, rfl, rfl⟩
    · exact ⟨rfl, rfl, rfl⟩
  obtain ⟨hheld, hnow, hplace⟩ := hz
  have hslot : z.now = z.before - slots z.place := by omega
  cases res with
  | error e => exact ⟨hheld, hslot, nofun⟩
  | ok decision =>
    cases decision with
    | reject reason retry =>
      exact answer_holds hx hheld hslot (by simp [tooManyRequests, tooBusy])
    | allow =>
      refine acquire_holds (hx.handleMcp userId) hheld hnow hplace ?_ ?_
      · exact fun hle _ => answer_holds hx hheld hslot fun _ => hle
      · rintro (e | ⟨⟩) u hres hu hslots
        · cases e with
          | capacityExceeded message => exact absurd rfl (hres message)
          | cancelled | runtimeError | other => exact ⟨hu, hslots, nofun⟩
        · exact ⟨hu, hslots, nofun⟩

end Pieces

/-! ### The limit over any run -/

/-- The requests of a loop that sleep in the MCP server. -/
def inFlight (L : Loop Int Place Exc (Option Response)) : Nat :=
  L.tasks.countP fun t => decide (t.place = some .handler)

/-- The request is told that there is no slot. -/
def Refused (cfg : LimiterSettings) (t : Task Int Place Exc (Option Response)) : Prop :=
  t.place = some (.sending (tooBusy cfg)) ∨ t = .done (.ok (some (tooBusy cfg)))

variable {cfg : LimiterSettings} {L L' : Loop Int Place Exc (Option Response)}

theorem Serves.holds {p : Piece (Option Response)} (h : Serves cfg p) (s : Int) :
    (contract cfg).Holds p (.at_ none s) := by
  obtain ⟨x, hx, rfl⟩ := h
  exact call_holds hx s

theorem slots_eq (place : Option Place) : slots place = if place = some .handler then 1 else 0 := by
  rcases place with _ | _ | _ | _ <;> rfl

/-- The counter is the number of requests that sleep in the MCP server. -/
theorem shared_eq_inFlight (h : Loop.Reach (Serves cfg) 0 L) : L.shared = inFlight L := by
  have htally := h.tally (w := slots) (C := contract cfg) (fun p hp => hp.holds) rfl
    (fun _ _ _ _ h => h.1) (fun _ _ _ _ h => h.1)
  rw [htally, inFlight]
  induction L.tasks with
  | nil => rfl
  | cons t ts ih =>
    rw [List.map_cons, List.sum_cons, List.countP_cons, slots_eq]
    simp only [decide_eq_true_eq]
    split <;> push_cast <;> omega

theorem shared_le_limit (h : Loop.Reach (Serves cfg) 0 L) : L.shared ≤ max cfg.limit 0 := by
  refine h.invariant (I := fun L => L.shared ≤ max cfg.limit 0) (C := contract cfg)
    (fun p hp => hp.holds) (by simp) fun L L' hL hmoved => ?_
  cases hmoved with
  | spawned p hshared htasks => exact hshared ▸ hL
  | led i t t' ht htasks hleads =>
    have hslots := slots_eq t.place
    cases t' with
    | ready p | waiting k => exact hleads.elim
    | done res =>
      have hshared : L'.shared = L.shared - slots t.place := hleads.1
      split at hslots <;> omega
    | sleeping place k =>
      obtain ⟨hshared, hroom, -⟩ := hleads
      have hslots' := slots_eq (some place)
      by_cases hplace : place = .handler
      · by_cases hstay : t.place = some .handler
        · rw [hplace, hstay] at hshared
          omega
        · have hlt := hroom hplace hstay
          rw [if_neg hstay] at hslots
          rw [hplace] at hshared hslots'
          rw [if_pos rfl] at hslots'
          omega
      · rw [if_neg fun h => hplace (Option.some.inj h)] at hslots'
        split at hslots <;> omega

/-- The states in which the limit is kept: no request waits for the lock, the counter is the number of
requests in the MCP server, and it is within the limit. -/
structure Limited (cfg : LimiterSettings) (L : Loop Int Place Exc (Option Response)) : Prop where
  locked : L.locked = false
  waiters : L.waiters = []
  counts : L.shared = inFlight L
  within : (inFlight L : Int) ≤ max cfg.limit 0

/-- What one step does to the requests: one enters the MCP server only if a slot is free, and is refused
only if none is. -/
structure Admits (cfg : LimiterSettings) (L L' : Loop Int Place Exc (Option Response)) : Prop where
  enters : ∀ (i : Nat) (t : Task Int Place Exc (Option Response)), L'.tasks[i]? = some t →
    t.place = some .handler →
    (∃ u, L.tasks[i]? = some u ∧ u.place = some .handler) ∨ (inFlight L : Int) < cfg.limit
  refused : ∀ (i : Nat) (t : Task Int Place Exc (Option Response)), L'.tasks[i]? = some t →
    Refused cfg t → (∃ u, L.tasks[i]? = some u ∧ Refused cfg u) ∨ cfg.limit ≤ inFlight L

theorem Limited.admits (h : Limited cfg L) (hmoved : Loop.Moved (contract cfg) L L') :
    Admits cfg L L' := by
  constructor
  · intro i t ht hplace
    rcases hmoved.task ht with hsame | ⟨p, rfl⟩ | ⟨u, hu, hleads⟩
    · exact .inl ⟨t, hsame, hplace⟩
    · cases hplace
    · by_cases hstay : u.place = some .handler
      · exact .inl ⟨u, hu, hstay⟩
      · cases t with
        | sleeping place k => exact .inr (h.counts ▸ hleads.2.1 (Option.some.inj hplace) hstay)
        | ready p | waiting k | done res => cases hplace
  · intro i t ht hrefused
    rcases hmoved.task ht with hsame | ⟨p, rfl⟩ | ⟨u, hu, hleads⟩
    · exact .inl ⟨t, hsame, hrefused⟩
    · rcases hrefused with hplace | hdone
      · cases hplace
      · cases hdone
    · by_cases hstay : u.place = some (.sending (tooBusy cfg))
      · exact .inl ⟨u, hu, .inl hstay⟩
      · refine .inr (h.counts ▸ ?_)
        rcases hrefused with hplace | rfl
        · cases t with
          | sleeping place k =>
            obtain rfl := Option.some.inj hplace
            exact hleads.2.2 rfl hstay
          | ready p | waiting k | done res => cases hplace
        · exact hleads.2 rfl hstay

/-- Over any run of the endpoint's requests, each cancelled at any point at which it sleeps or not at
all: the slots taken are those of the requests in the MCP server, so that none is lost; there are
never more than the limit; a request is refused only while all of them are taken; and every request
that has not ended can go on. -/
theorem limiter_exact (h : Loop.Reach (Serves cfg) 0 L) :
    Limited cfg L ∧
    (∀ i t, L.tasks[i]? = some t →
      (∃ res, t = .done res) ∨ ∃ L', L.step (.resume i) = some L') ∧
    ∀ a L', (∀ p, a = .spawn p → Serves cfg p) → L.step a = some L' → Admits cfg L L' := by
  have hfree := h.free (C := contract cfg) fun p hp => hp.holds
  have hcounts := shared_eq_inFlight h
  have hlimited : Limited cfg L :=
    ⟨hfree.locked, hfree.waiters, hcounts, hcounts ▸ shared_le_limit h⟩
  refine ⟨hlimited, fun i t ht => ?_, fun a L' ha hstep => ?_⟩
  · cases t with
    | done res => exact .inl ⟨res, rfl⟩
    | waiting k => exact (hfree.tasks _ (List.mem_of_getElem? ht)).elim
    | ready p => exact .inr ⟨L.exec i p, by simp [Loop.step, ht]⟩
    | sleeping place k => exact .inr ⟨L.exec i (k false), by simp [Loop.step, ht]⟩
  · exact hlimited.admits (hfree.step (fun p hp => (ha p hp).holds) hstep).2

/-- A limit of one request. -/
def oneSlot : LimiterSettings where
  http := { posture := .trustOnly, workosIssuer := none
            validateToken := fun _ _ _ _ => .raised, stdioUser := "default-user" }
  connectionsBaseUrl := "http://localhost:8080"
  limit := 1
  retryAfterSeconds := 5

/-- A sleep that ends with `a`, or with the cancellation. -/
def sleepThen {α : Type} (place : Place) (a : α) : Piece α :=
  .op (.sleep place) fun (cancelled : Bool) => if cancelled then .raise .cancelled else .ret a

theorem sleepThen_sleepsAt {α : Type} (place : Place) (a : α) : SleepsAt place (sleepThen place a) :=
  ⟨rfl, fun cancelled => by cases cancelled <;> simp [SleepsAt]⟩

/-- A request that sleeps once in each of its parts. -/
def patient : Incoming where
  http := true
  shed := false
  request := { authorization := none, xUserId := some "alice", message := .other "tools/list" }
  rateLimit := fun _ => sleepThen .rateLimit .allow
  handleMcp := fun _ => sleepThen .handler ()
  send := fun response => sleepThen (.sending response) ()

theorem patient_serves : Serves oneSlot (call oneSlot patient) :=
  ⟨patient, ⟨fun _ => sleepThen_sleepsAt _ _, fun _ => sleepThen_sleepsAt _ _,
    fun _ => sleepThen_sleepsAt _ _⟩, rfl⟩

/-- The first of two requests is in the MCP server, and the second comes to the limiter. -/
def oneServed : Loop Int Place Exc (Option Response) :=
  Loop.run { shared := 0 } [.spawn (call oneSlot patient), .spawn (call oneSlot patient), .resume 0,
    .resume 0, .resume 1]

/-- It is refused; the first is cancelled, and a third one comes to the limiter. -/
def thirdComes : Loop Int Place Exc (Option Response) :=
  oneServed.run [.resume 1, .cancel 0, .spawn (call oneSlot patient), .resume 2]

theorem oneServed_reach : Loop.Reach (Serves oneSlot) 0 oneServed :=
  Loop.Reach.init.run fun p hp => by
    simp only [List.mem_cons, LoopAct.spawn.injEq, reduceCtorEq, List.not_mem_nil, or_false,
      or_self] at hp
    exact hp ▸ patient_serves

theorem thirdComes_reach : Loop.Reach (Serves oneSlot) 0 thirdComes :=
  oneServed_reach.run fun p hp => by
    simp only [List.mem_cons, LoopAct.spawn.injEq, reduceCtorEq, List.not_mem_nil, or_false,
      false_or] at hp
    exact hp ▸ patient_serves

/-- The second request is refused because the one slot is taken, and the third enters because the
cancelled one has given it back. -/
theorem oneSlot_exact :
    (∃ L', oneServed.step (.resume 1) = some L' ∧ Admits oneSlot oneServed L' ∧
      ∃ t, L'.tasks[1]? = some t ∧ Refused oneSlot t ∧ inFlight oneServed = 1) ∧
    ∃ L', thirdComes.step (.resume 2) = some L' ∧ Admits oneSlot thirdComes L' ∧
      ∃ t, L'.tasks[2]? = some t ∧ t.place = some .handler ∧ inFlight thirdComes = 0 := by
  refine ⟨⟨_, rfl, ?_, ?_⟩, ⟨_, rfl, ?_, ?_⟩⟩
  · exact (limiter_exact oneServed_reach).2.2 (.resume 1) _ nofun rfl
  · exact ⟨_, rfl, .inl rfl, rfl⟩
  · exact (limiter_exact thirdComes_reach).2.2 (.resume 2) _ nofun rfl
  · exact ⟨_, rfl, rfl, rfl⟩

end TaskScheduler.Overload
