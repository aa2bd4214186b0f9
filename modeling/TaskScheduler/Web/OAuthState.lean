import TaskScheduler.Web.Connections

/-! The binding of callbacks to the flow that started them.  The comparison protects a callback only
if its browser sends the state cookie of the same flow; then every accepted state was issued to that
browser by that flow, and is accepted once. -/

namespace TaskScheduler.Web

open Connections

/-- The state was issued to the browser by the flow, and no callback with it was accepted so far. -/
def Unspent (events : List Event) (browser : Nat) (flow : Flow) (state : Option String) : Prop :=
  ∃ s, state = some s ∧ .issued browser flow s ∈ events ∧
    ∀ b f, Event.accepted b f (some s) ∉ events

/-- Every callback of the record was accepted with a state that was unspent. -/
def Bound : List Event → Prop
  | [] => True
  | .issued _ _ _ :: events => Bound events
  | .accepted browser flow state :: events => Unspent events browser flow state ∧ Bound events

theorem Bound.issued {events : List Event} (h : Bound events) {b : Nat} {f : Flow}
    {state : Option String} (hmem : .accepted b f state ∈ events) :
    ∃ s, state = some s ∧ .issued b f s ∈ events := by
  induction events with
  | nil => cases hmem
  | cons e events ih =>
    cases e with
    | issued b' f' s' =>
      obtain ⟨s, hs, hin⟩ := ih h ((List.mem_cons.mp hmem).resolve_left (by simp))
      exact ⟨s, hs, List.mem_cons_of_mem _ hin⟩
    | accepted b' f' state' =>
      rcases List.mem_cons.mp hmem with heq | hmem
      · cases heq
        obtain ⟨s, hs, hin, -⟩ := h.1
        exact ⟨s, hs, List.mem_cons_of_mem _ hin⟩
      · obtain ⟨s, hs, hin⟩ := ih h.2 hmem
        exact ⟨s, hs, List.mem_cons_of_mem _ hin⟩

section Steps

variable {Blob : Type}

/-- A callback that passes every check but the comparison of states: its flow, and its `state`
parameter. -/
def Request.passes (cfg : Config Blob) (userId : Option String) : Request →
    Option (Flow × Option String)
  | .authCallback code state (.body accessToken subject idTokenSubject userObject) =>
    if (truthy code).isSome && (truthy accessToken).isSome &&
        (WorkosReply.userId subject idTokenSubject userObject).isSome then some (.workos, state)
    else none
  | .callback p code state (.ok tokenData) _ =>
    if (truthy userId).isSome && (truthy code).isSome && cfg.envelope.isSome &&
        (parseExpiresAt cfg.fromisoformat (tokenData.get "expires_at")).isOk then
      some (.provider p, state)
    else none
  | _ => none

/-- The same callback with another `state` parameter. -/
def Request.withState (r : Request) (state : Option String) : Request :=
  match r with
  | .authCallback code _ reply => .authCallback code state reply
  | .callback p code _ exchange nonce => .callback p code state exchange nonce
  | r => r

theorem passes_withState {cfg : Config Blob} {userId : Option String} {r : Request} {flow : Flow}
    {state : Option String} (h : r.passes cfg userId = some (flow, state))
    (state' : Option String) : (r.withState state').passes cfg userId = some (flow, state') := by
  unfold Request.passes at h
  split at h
  · split at h
    · next hpass =>
      cases h
      simp only [Request.withState, Request.passes, hpass, if_true]
    · cases h
  · split at h
    · next hpass =>
      cases h
      simp only [Request.withState, Request.passes, hpass, if_true]
    · cases h
  · cases h

theorem callbackRoute_eq (p : Provider) (cfg : Config Blob) (rows : List (OAuthConnection Blob))
    (userId code state storedState : Option String) (exchange : Except String JsonObject)
    (nonce : Nat) : ∃ name, callbackRoute p cfg rows userId code state storedState exchange nonce =
      callback p name cfg rows userId code state storedState exchange nonce := by
  cases p with
  | github => exact ⟨"GitHub", rfl⟩
  | slack => exact ⟨"Slack", rfl⟩
  | google => exact ⟨"Google", rfl⟩

theorem connectRoute_eq (p : Provider) (cfg : Config Blob) (userId : Option String)
    (state : String) :
    ∃ text, connectRoute p cfg userId state = connect p text cfg userId state := by
  cases p with
  | github => exact ⟨_, rfl⟩
  | slack => exact ⟨_, rfl⟩
  | google => exact ⟨_, rfl⟩

theorem passes_authCallback {cfg : Config Blob} {userId code state : Option String}
    {reply : WorkosReply} {flow : Flow} {state' : Option String}
    (h : (Request.authCallback code state reply).passes cfg userId = some (flow, state')) :
    state' = state := by
  cases reply with
  | requestError exc => cases h
  | failed text => cases h
  | unreadable => cases h
  | body accessToken subject idTokenSubject userObject =>
    simp only [Request.passes] at h
    split at h <;> cases h
    rfl

theorem passes_callback {cfg : Config Blob} {userId code state : Option String} {p : Provider}
    {exchange : Except String JsonObject} {nonce : Nat} {flow : Flow} {state' : Option String}
    (h : (Request.callback p code state exchange nonce).passes cfg userId = some (flow, state')) :
    state' = state := by
  cases exchange with
  | error exc => cases h
  | ok tokenData =>
    simp only [Request.passes] at h
    split at h <;> cases h
    rfl

/-- A WorkOS callback that passes sets a session, unless the states differ. -/
theorem workosAuthCallback_accepts {cfg : Config Blob}
    {userId code state storedState : Option String} {reply : WorkosReply} {flow : Flow}
    {state' : Option String}
    (hpass : (Request.authCallback code state reply).passes cfg userId = some (flow, state'))
    (hmatch : stateMismatch storedState state' = false) :
    flow = .workos ∧ state' = state ∧
      (workosAuthCallback code state storedState reply).sessionCookie.isSome = true ∧
      (workosAuthCallback code state storedState reply).stateCookie = some .delete := by
  cases reply with
  | requestError exc => cases hpass
  | failed text => cases hpass
  | unreadable => cases hpass
  | body accessToken subject idTokenSubject userObject =>
    simp only [Request.passes] at hpass
    split at hpass
    · next hchecks =>
      simp only [Bool.and_eq_true, Option.isSome_iff_exists] at hchecks
      obtain ⟨⟨⟨_, hcode⟩, _, htoken⟩, _, huser⟩ := hchecks
      cases hpass
      simp [workosAuthCallback, hcode, hmatch, htoken, huser]
    · cases hpass

theorem workosAuthCallback_rejects {cfg : Config Blob}
    {userId code state storedState : Option String} {reply : WorkosReply}
    (h : (Request.authCallback code state reply).passes cfg userId = none ∨
      stateMismatch storedState state = true) :
    (workosAuthCallback code state storedState reply).sessionCookie = none ∧
      (workosAuthCallback code state storedState reply).stateCookie = none := by
  unfold workosAuthCallback
  split
  · exact ⟨rfl, rfl⟩
  · next hcode =>
    split
    · exact ⟨rfl, rfl⟩
    · next hmatch =>
      split
      · exact ⟨rfl, rfl⟩
      · exact ⟨rfl, rfl⟩
      · exact ⟨rfl, rfl⟩
      · split
        · exact ⟨rfl, rfl⟩
        · next htoken =>
          split
          · exact ⟨rfl, rfl⟩
          · next huser =>
            rcases h with h | h
            · simp [Request.passes, hcode, htoken, huser] at h
            · exact absurd h hmatch

/-- A callback of a provider that passes stores a token, unless the states differ. -/
theorem callback_accepts {cfg : Config Blob} {p : Provider} {name : String}
    {rows : List (OAuthConnection Blob)} {userId code state storedState : Option String}
    {exchange : Except String JsonObject} {nonce : Nat} {flow : Flow} {state' : Option String}
    (hpass : (Request.callback p code state exchange nonce).passes cfg userId = some (flow, state'))
    (hmatch : stateMismatch storedState state' = false) :
    flow = .provider p ∧ state' = state ∧
      ∃ rows', callback p name cfg rows userId code state storedState exchange nonce =
        ({ page := .redirect "/connections", stateCookie := some .delete }, some rows') := by
  cases exchange with
  | error exc => cases hpass
  | ok tokenData =>
    simp only [Request.passes] at hpass
    split at hpass
    · next hchecks =>
      simp only [Bool.and_eq_true, Option.isSome_iff_exists] at hchecks
      obtain ⟨⟨⟨⟨_, huser⟩, _, hcode⟩, _, henvelope⟩, hexpires⟩ := hchecks
      cases hpass
      cases hparse : parseExpiresAt cfg.fromisoformat (tokenData.get "expires_at") with
      | error e =>
        rw [hparse] at hexpires
        cases hexpires
      | ok expiresAt =>
        simp [callback, huser, hcode, hmatch, henvelope, upsert, hparse]
    · cases hpass

theorem callback_rejects {cfg : Config Blob} {p : Provider} {name : String}
    {rows : List (OAuthConnection Blob)} {userId code state storedState : Option String}
    {exchange : Except String JsonObject} {nonce : Nat}
    (h : (Request.callback p code state exchange nonce).passes cfg userId = none ∨
      stateMismatch storedState state = true) :
    (callback p name cfg rows userId code state storedState exchange nonce).2 = none ∧
      (callback p name cfg rows userId code state storedState exchange nonce).1.stateCookie =
        none := by
  unfold callback
  split
  · exact ⟨rfl, rfl⟩
  · next huser =>
    split
    · exact ⟨rfl, rfl⟩
    · next hcode =>
      split
      · exact ⟨rfl, rfl⟩
      · next hmatch =>
        split
        · exact ⟨rfl, rfl⟩
        · next henvelope =>
          split
          · exact ⟨rfl, rfl⟩
          · next tokenData =>
            split
            · exact ⟨rfl, rfl⟩
            · next hupsert =>
              rcases h with h | h
              · cases hparse : parseExpiresAt cfg.fromisoformat (tokenData.get "expires_at") with
                | error e => simp [upsert, hparse] at hupsert
                | ok expiresAt =>
                  simp [Request.passes, huser, hcode, henvelope, hparse, Except.isOk,
                    Except.toBool] at h
              · exact absurd h hmatch

/-- The login and connect routes start a flow, or leave the state cookie. -/
theorem connectionsLogin_cases (cfg : Config Blob) (state : String) :
    connectionsLogin cfg state = startFlow .workos state ∨
      (∀ f s, (connectionsLogin cfg state).page ≠ .authorize f s) ∧
        (connectionsLogin cfg state).stateCookie = none := by
  unfold connectionsLogin
  split
  · exact .inl rfl
  · exact .inr ⟨by simp, rfl⟩

theorem connect_cases (p : Provider) (text : String) (cfg : Config Blob) (userId : Option String)
    (state : String) : connect p text cfg userId state = startFlow (.provider p) state ∨
      (∀ f s, (connect p text cfg userId state).page ≠ .authorize f s) ∧
        (connect p text cfg userId state).stateCookie = none := by
  unfold connect
  split
  · exact .inr ⟨by simp, rfl⟩
  · split
    · exact .inl rfl
    · exact .inr ⟨by simp, rfl⟩

/-! ### What a step can do -/

namespace State

/-- The user of the session that a request carries. -/
def userId (σ : State Blob) (browser : Nat) (embedded : Bool) : Option String :=
  Cookie.sent σ.clock (σ.sentJar browser embedded).session

/-- The state cookie that a request carries. -/
def storedState (σ : State Blob) (browser : Nat) (embedded : Bool) : Option String :=
  Cookie.sent σ.clock (σ.sentJar browser embedded).oauthState

/-- A step leaves the states as they are, issues one, or accepts a callback. -/
inductive Effect (cfg : Config Blob) (σ : State Blob) : Act → State Blob → Prop
  | quiet {a : Act} {σ' : State Blob} : σ'.drawn = σ.drawn → σ'.events = σ.events →
    (∀ b, (σ'.jars b).oauthState = (σ.jars b).oauthState) → Effect cfg σ a σ'
  | issued {a : Act} {σ' : State Blob} (browser : Nat) (flow : Flow) : σ'.drawn = σ.drawn + 1 →
    σ'.events = .issued browser flow (cfg.tokenUrlsafe σ.drawn) :: σ.events →
    (∀ b c, (σ'.jars b).oauthState = some c → (σ.jars b).oauthState = some c ∨
      b = browser ∧ c.value = cfg.tokenUrlsafe σ.drawn) → Effect cfg σ a σ'
  | accepted {browser : Nat} {embedded : Bool} {r : Request} {σ' : State Blob} {flow : Flow}
    {state : Option String} : r.passes cfg (σ.userId browser embedded) = some (flow, state) →
    stateMismatch (σ.storedState browser embedded) state = false → σ'.drawn = σ.drawn →
    σ'.events = .accepted browser flow state :: σ.events →
    (∀ b c, (σ'.jars b).oauthState = some c → (σ.jars b).oauthState = some c ∧
      (embedded = false → b ≠ browser)) → Effect cfg σ (.request browser embedded r) σ'

theorem receive_drawn (σ : State Blob) (b : Nat) (embedded : Bool) (response : Response) :
    (σ.receive b embedded response).drawn = σ.drawn ∧
      (σ.receive b embedded response).events = σ.events := by
  unfold receive
  split <;> exact ⟨rfl, rfl⟩

/-- Without a state cookie in the response, the browser keeps the one that it has. -/
theorem receive_keeps (σ : State Blob) (browser : Nat) (embedded : Bool) {response : Response}
    (h : response.stateCookie = none) (b : Nat) :
    ((σ.receive browser embedded response).jars b).oauthState = (σ.jars b).oauthState := by
  unfold receive
  cases embedded with
  | true => rfl
  | false =>
    simp only [Bool.false_eq_true, if_false]
    split
    · simp only [Jar.receive, h, SetCookie.apply]
    · rfl

theorem receive_delete (σ : State Blob) (browser : Nat) (embedded : Bool) {response : Response}
    (h : response.stateCookie = some .delete) (b : Nat) (c : Cookie)
    (hc : ((σ.receive browser embedded response).jars b).oauthState = some c) :
    (σ.jars b).oauthState = some c ∧ (embedded = false → b ≠ browser) := by
  unfold receive at hc
  cases embedded with
  | true => exact ⟨hc, fun h => by cases h⟩
  | false =>
    simp only [Bool.false_eq_true, if_false] at hc
    split at hc
    · simp only [Jar.receive, h, SetCookie.apply, reduceCtorEq] at hc
    · next hne => exact ⟨hc, fun _ => hne⟩

theorem receive_start (σ : State Blob) (browser : Nat) (embedded : Bool) (flow : Flow)
    (state : String) (b : Nat) (c : Cookie)
    (hc : ((σ.receive browser embedded (startFlow flow state)).jars b).oauthState = some c) :
    (σ.jars b).oauthState = some c ∨ b = browser ∧ c.value = state := by
  unfold receive at hc
  cases embedded with
  | true => exact .inl hc
  | false =>
    simp only [Bool.false_eq_true, if_false] at hc
    split at hc
    · next heq =>
      simp only [Jar.receive, startFlow, SetCookie.apply, Option.some.injEq] at hc
      exact .inr ⟨heq, hc ▸ rfl⟩
    · exact .inl hc

/-- The response of a route that starts flows, received by the browser. -/
theorem effect_start {cfg : Config Blob} (σ : State Blob) (a : Act) (browser : Nat)
    (embedded : Bool) {response : Response} {flow : Flow}
    (h : response = startFlow flow (cfg.tokenUrlsafe σ.drawn) ∨
      (∀ f s, response.page ≠ .authorize f s) ∧ response.stateCookie = none) :
    Effect cfg σ a ((σ.issue browser response).receive browser embedded response) := by
  rcases h with rfl | ⟨hpage, hcookie⟩
  · let started : State Blob := { σ with
      drawn := σ.drawn + 1
      events := .issued browser flow (cfg.tokenUrlsafe σ.drawn) :: σ.events }
    have hissue : σ.issue browser (startFlow flow (cfg.tokenUrlsafe σ.drawn)) = started := rfl
    rw [hissue]
    exact .issued browser flow (receive_drawn started _ _ _).1 (receive_drawn started _ _ _).2
      fun b c hc => receive_start started browser embedded flow _ b c hc
  · have hissue : σ.issue browser response = σ := by
      unfold issue
      split
      · next heq => exact absurd heq (hpage _ _)
      · rfl
    rw [hissue]
    exact .quiet (receive_drawn _ _ _ _).1 (receive_drawn _ _ _ _).2
      (receive_keeps σ browser embedded hcookie)

/-- A callback that passes is accepted, unless the states differ. -/
theorem step_accepts {cfg : Config Blob} (σ : State Blob) {browser : Nat} {embedded : Bool}
    {r : Request} {flow : Flow} {state : Option String}
    (hpass : r.passes cfg (σ.userId browser embedded) = some (flow, state))
    (hmatch : stateMismatch (σ.storedState browser embedded) state = false) :
    (σ.step cfg (.request browser embedded r)).events = .accepted browser flow state :: σ.events ∧
      Effect cfg σ (.request browser embedded r) (σ.step cfg (.request browser embedded r)) := by
  -- an accepted callback deletes the cookie
  have haccepted : ∀ (response : Response) (rows : List (OAuthConnection Blob)),
      response.stateCookie = some .delete →
      σ.step cfg (.request browser embedded r) = { σ.receive browser embedded response with
        rows := rows, events := .accepted browser flow state :: σ.events } →
      (σ.step cfg (.request browser embedded r)).events =
        .accepted browser flow state :: σ.events ∧
      Effect cfg σ (.request browser embedded r) (σ.step cfg (.request browser embedded r)) := by
    intro response rows hdelete heq
    rw [heq]
    exact ⟨rfl, .accepted hpass hmatch (receive_drawn σ browser embedded response).1 rfl
      (receive_delete σ browser embedded hdelete)⟩
  have hevents := fun response => (receive_drawn σ browser embedded response).2
  cases r with
  | login => cases hpass
  | connect p => cases hpass
  | authCallback code state' reply =>
    obtain ⟨rfl, rfl, hsession, hdelete⟩ := workosAuthCallback_accepts hpass hmatch
    have hstep : σ.step cfg (.request browser embedded (.authCallback code state reply)) =
        { σ.receive browser embedded
            (workosAuthCallback code state (σ.storedState browser embedded) reply) with
          events := .accepted browser .workos state :: (σ.receive browser embedded
            (workosAuthCallback code state (σ.storedState browser embedded) reply)).events } :=
      if_pos hsession
    rw [hevents] at hstep
    exact haccepted _ _ hdelete hstep
  | callback p code state' exchange nonce =>
    obtain ⟨name, hroute⟩ := callbackRoute_eq p cfg σ.rows (σ.userId browser embedded) code state'
      (σ.storedState browser embedded) exchange nonce
    obtain ⟨rfl, rfl, rows, hcallback⟩ := @callback_accepts _ _ _ name σ.rows _ _ _ _ _ _ _ _ hpass
      hmatch
    refine haccepted { page := .redirect "/connections", stateCookie := some .delete } rows rfl ?_
    have hboth := hroute.trans hcallback
    simp only [step]
    rw [show callbackRoute p cfg σ.rows (Cookie.sent σ.clock (σ.sentJar browser embedded).session)
      code state (Cookie.sent σ.clock (σ.sentJar browser embedded).oauthState) exchange nonce = _
      from hboth]
    simp only [hevents]

/-- Every other callback leaves the states as they are. -/
theorem step_rejects {cfg : Config Blob} (σ : State Blob) {browser : Nat} {embedded : Bool}
    {r : Request} (hr : (∃ code state reply, r = .authCallback code state reply) ∨
      ∃ p code state exchange nonce, r = .callback p code state exchange nonce)
    (h : r.passes cfg (σ.userId browser embedded) = none ∨ ∃ flow state,
      r.passes cfg (σ.userId browser embedded) = some (flow, state) ∧
      stateMismatch (σ.storedState browser embedded) state = true) :
    Effect cfg σ (.request browser embedded r) (σ.step cfg (.request browser embedded r)) := by
  have hquiet : ∀ (response : Response), response.stateCookie = none →
      σ.step cfg (.request browser embedded r) = σ.receive browser embedded response →
      Effect cfg σ (.request browser embedded r) (σ.step cfg (.request browser embedded r)) := by
    intro response hnone heq
    rw [heq]
    exact .quiet (receive_drawn σ browser embedded response).1
      (receive_drawn σ browser embedded response).2 (receive_keeps σ browser embedded hnone)
  rcases hr with ⟨code, state, reply, rfl⟩ | ⟨p, code, state, exchange, nonce, rfl⟩
  · have hor : (Request.authCallback code state reply).passes cfg
        (σ.userId browser embedded) = none ∨
        stateMismatch (σ.storedState browser embedded) state = true := by
      refine h.imp_right ?_
      rintro ⟨flow, state', hpass, hmismatch⟩
      exact passes_authCallback hpass ▸ hmismatch
    obtain ⟨hsession, hnone⟩ := workosAuthCallback_rejects hor
    have hnosession : (workosAuthCallback code state (σ.storedState browser embedded)
        reply).sessionCookie.isSome = false := by rw [hsession]; rfl
    exact hquiet _ hnone (if_neg (Bool.eq_false_iff.mp hnosession))
  · have hor : (Request.callback p code state exchange nonce).passes cfg
        (σ.userId browser embedded) = none ∨
        stateMismatch (σ.storedState browser embedded) state = true := by
      refine h.imp_right ?_
      rintro ⟨flow, state', hpass, hmismatch⟩
      exact passes_callback hpass ▸ hmismatch
    obtain ⟨name, hroute⟩ := callbackRoute_eq p cfg σ.rows (σ.userId browser embedded) code state
      (σ.storedState browser embedded) exchange nonce
    obtain ⟨hrows, hnone⟩ := @callback_rejects _ _ _ name σ.rows _ _ _ _ _ _ hor
    rw [← hroute] at hrows hnone
    refine hquiet _ hnone ?_
    simp only [step]
    generalize hresult : callbackRoute p cfg σ.rows (Cookie.sent σ.clock
      (σ.sentJar browser embedded).session) code state (Cookie.sent σ.clock
      (σ.sentJar browser embedded).oauthState) exchange nonce = result
    rw [show callbackRoute p cfg σ.rows (σ.userId browser embedded) code state
      (σ.storedState browser embedded) exchange nonce = result from hresult] at hrows ⊢
    obtain ⟨response, rows⟩ := result
    cases hrows
    rfl

/-- What a step does to the states. -/
theorem step_effect (cfg : Config Blob) (σ : State Blob) (a : Act) :
    Effect cfg σ a (σ.step cfg a) := by
  cases a with
  | tick seconds => exact .quiet rfl rfl fun _ => rfl
  | request browser embedded r =>
    have hcallback : (∃ code state reply, r = .authCallback code state reply) ∨
        (∃ p code state exchange nonce, r = .callback p code state exchange nonce) →
        Effect cfg σ (.request browser embedded r) (σ.step cfg (.request browser embedded r)) := by
      intro hr
      cases hpass : r.passes cfg (σ.userId browser embedded) with
      | none => exact step_rejects σ hr (.inl hpass)
      | some result =>
        obtain ⟨flow, state⟩ := result
        cases hmatch : stateMismatch (σ.storedState browser embedded) state with
        | true => exact step_rejects σ hr (.inr ⟨flow, state, hpass, hmatch⟩)
        | false => exact (step_accepts σ hpass hmatch).2
    cases r with
    | login => exact effect_start σ _ browser embedded (connectionsLogin_cases cfg _)
    | connect p =>
      obtain ⟨text, htext⟩ := connectRoute_eq p cfg (σ.userId browser embedded)
        (cfg.tokenUrlsafe σ.drawn)
      exact effect_start σ _ browser embedded (htext ▸ connect_cases p text cfg _ _)
    | authCallback code state reply => exact hcallback (.inl ⟨code, state, reply, rfl⟩)
    | callback p code state exchange nonce =>
      exact hcallback (.inr ⟨p, code, state, exchange, nonce, rfl⟩)

/-! ### Runs -/

/-- The states that steps satisfying `ok` reach from browsers without cookies. -/
inductive Reach (cfg : Config Blob) (ok : State Blob → Act → Prop) : State Blob → Prop
  | init (clock : Int) (rows : List (OAuthConnection Blob)) : Reach cfg ok { clock, rows }
  | step {σ : State Blob} {a : Act} : Reach cfg ok σ → ok σ a → Reach cfg ok (σ.step cfg a)

/-- Each of the listed steps satisfies `ok` where it is taken. -/
def Allowed (cfg : Config Blob) (ok : State Blob → Act → Prop) (σ : State Blob) : List Act → Prop
  | [] => True
  | a :: acts => ok σ a ∧ Allowed cfg ok (σ.step cfg a) acts

theorem Reach.runActs {cfg : Config Blob} {ok : State Blob → Act → Prop} {σ : State Blob}
    (h : Reach cfg ok σ) {acts : List Act} (hok : Allowed cfg ok σ acts) :
    Reach cfg ok (acts.foldl (State.step cfg) σ) := by
  induction acts generalizing σ with
  | nil => exact h
  | cons a acts ih => exact ih (h.step hok.1) hok.2

/-- A callback that passes the other checks carries the state cookie of its own flow. -/
def Guarded (cfg : Config Blob) (σ : State Blob) : Act → Prop
  | .tick _ => True
  | .request browser embedded r => ∀ flow state,
    r.passes cfg (σ.userId browser embedded) = some (flow, state) →
    ∃ s, σ.storedState browser embedded = some s ∧ .issued browser flow s ∈ σ.events

/-- Issued states are draws and belong to one flow; those in the cookies were issued to their
browsers. -/
structure Sound (cfg : Config Blob) (σ : State Blob) : Prop where
  drawn : ∀ b f s, .issued b f s ∈ σ.events → ∃ n < σ.drawn, s = cfg.tokenUrlsafe n
  unique : ∀ b f b' f' s, .issued b f s ∈ σ.events → .issued b' f' s ∈ σ.events → b = b' ∧ f = f'
  cookies : ∀ b c, (σ.jars b).oauthState = some c → ∃ f, .issued b f c.value ∈ σ.events

theorem Sound.step {cfg : Config Blob} {σ : State Blob} (h : Sound cfg σ) (a : Act) :
    Sound cfg (σ.step cfg a) := by
  cases step_effect cfg σ a with
  | quiet hdrawn hevents hcookies =>
    refine ⟨?_, ?_, fun b c hc => ?_⟩
    · rw [hdrawn, hevents]
      exact h.drawn
    · rw [hevents]
      exact h.unique
    · rw [hevents]
      exact h.cookies b c (hcookies b ▸ hc)
  | issued browser flow hdrawn hevents hcookies =>
    -- the new state differs from all that were drawn before
    have hnew : ∀ b f, Event.issued b f (cfg.tokenUrlsafe σ.drawn) ∉ σ.events := by
      intro b f hmem
      obtain ⟨n, hn, heq⟩ := h.drawn b f _ hmem
      have := cfg.tokenUrlsafe_injective _ _ heq
      omega
    refine ⟨fun b f s hmem => ?_, fun b f b' f' s hmem hmem' => ?_, fun b c hc => ?_⟩
    · rw [hevents] at hmem
      rw [hdrawn]
      rcases List.mem_cons.mp hmem with heq | hmem
      · cases heq
        exact ⟨σ.drawn, Nat.lt_succ_self _, rfl⟩
      · obtain ⟨n, hn, heq⟩ := h.drawn b f s hmem
        exact ⟨n, Nat.lt_succ_of_lt hn, heq⟩
    · rw [hevents] at hmem hmem'
      rcases List.mem_cons.mp hmem with heq | hmem <;>
        rcases List.mem_cons.mp hmem' with heq' | hmem'
      · cases heq
        cases heq'
        exact ⟨rfl, rfl⟩
      · cases heq
        exact absurd hmem' (hnew b' f')
      · cases heq'
        exact absurd hmem (hnew b f)
      · exact h.unique b f b' f' s hmem hmem'
    · rw [hevents]
      rcases hcookies b c hc with hold | ⟨rfl, hvalue⟩
      · obtain ⟨f, hmem⟩ := h.cookies b c hold
        exact ⟨f, List.mem_cons_of_mem _ hmem⟩
      · exact ⟨flow, hvalue ▸ List.mem_cons_self⟩
  | @accepted browser embedded r _ flow state hpass hmatch hdrawn hevents hcookies =>
    have hissued : ∀ {b f s},
        Event.issued b f s ∈ (σ.step cfg (.request browser embedded r)).events →
        Event.issued b f s ∈ σ.events := by
      intro b f s hmem
      rw [hevents] at hmem
      exact (List.mem_cons.mp hmem).resolve_left (by simp)
    refine ⟨fun b f s hmem => ?_, fun b f b' f' s hmem hmem' => ?_, fun b c hc => ?_⟩
    · rw [hdrawn]
      exact h.drawn b f s (hissued hmem)
    · exact h.unique b f b' f' s (hissued hmem) (hissued hmem')
    · obtain ⟨f, hmem⟩ := h.cookies b c (hcookies b c hc).1
      rw [hevents]
      exact ⟨f, List.mem_cons_of_mem _ hmem⟩

/-- The states in the cookies are unspent, and every accepted one was when it was accepted. -/
structure Protected (σ : State Blob) : Prop where
  bound : Bound σ.events
  unspent : ∀ b c, (σ.jars b).oauthState = some c →
    ∀ b' f, Event.accepted b' f (some c.value) ∉ σ.events

theorem sent_some {now : Int} {c : Option Cookie} {s : String} (h : Cookie.sent now c = some s) :
    ∃ cookie, c = some cookie ∧ cookie.value = s := by
  obtain ⟨cookie, hcookie, rfl⟩ := Option.map_eq_some_iff.mp h
  exact ⟨cookie, (Option.filter_eq_some_iff.mp hcookie).1, rfl⟩

theorem Protected.step {cfg : Config Blob} {σ : State Blob} (hsound : Sound cfg σ)
    (h : Protected σ) {a : Act} (hguard : Guarded cfg σ a) : Protected (σ.step cfg a) := by
  cases step_effect cfg σ a with
  | quiet hdrawn hevents hcookies =>
    refine ⟨?_, fun b c hc => ?_⟩
    · rw [hevents]
      exact h.bound
    · rw [hevents]
      exact h.unspent b c (hcookies b ▸ hc)
  | issued browser flow hdrawn hevents hcookies =>
    refine ⟨?_, fun b c hc b' f hmem => ?_⟩
    · rw [hevents]
      exact h.bound
    · rw [hevents] at hmem
      have hbefore : Event.accepted b' f (some c.value) ∈ σ.events :=
        (List.mem_cons.mp hmem).resolve_left (by simp)
      rcases hcookies b c hc with hold | ⟨-, hvalue⟩
      · exact h.unspent b c hold b' f hbefore
      · -- an accepted state was issued before, and a new one was not
        obtain ⟨s, hs, hissued⟩ := h.bound.issued hbefore
        cases hs
        obtain ⟨n, hn, heq⟩ := hsound.drawn b' f _ hissued
        have := cfg.tokenUrlsafe_injective _ _ (hvalue.symm.trans heq)
        omega
  | @accepted browser embedded r _ flow state hpass hmatch hdrawn hevents hcookies =>
    obtain ⟨s, hs, hissued⟩ := hguard flow state hpass
    -- the state is compared, so it is that of the cookie
    obtain ⟨n, -, heq⟩ := hsound.drawn browser flow s hissued
    have hne : s ≠ "" := heq ▸ cfg.tokenUrlsafe_ne n
    have hstate : state = some s := by
      rw [hs] at hmatch
      simpa [stateMismatch, truthy, Option.filter, hne] using hmatch
    have hembedded : embedded = false := by
      cases embedded with
      | true => cases hs
      | false => rfl
    obtain ⟨cookie, hcookie, rfl⟩ := sent_some (show Cookie.sent σ.clock
      (σ.jars browser).oauthState = some s by rw [hembedded] at hs; exact hs)
    subst hstate
    refine ⟨?_, fun b c hc b' f hmem => ?_⟩
    · rw [hevents]
      exact ⟨⟨_, rfl, hissued, h.unspent browser cookie hcookie⟩, h.bound⟩
    · obtain ⟨hold, hother⟩ := hcookies b c hc
      rw [hevents] at hmem
      rcases List.mem_cons.mp hmem with heq | hmem
      · -- another browser's cookie has another state
        have hvalue : c.value = cookie.value := Option.some.inj (Event.accepted.inj heq).2.2
        obtain ⟨g, hg⟩ := hsound.cookies b c hold
        exact hother hembedded (hsound.unique b g browser flow _ (hvalue ▸ hg) hissued).1
      · exact h.unspent b c hold b' f hmem

theorem Reach.protected {cfg : Config Blob} {σ : State Blob} (h : Reach cfg (Guarded cfg) σ) :
    Sound cfg σ ∧ Protected σ := by
  induction h with
  | init clock rows =>
    exact ⟨⟨by simp, by simp, by simp⟩, trivial, by simp⟩
  | @step σ a _ hguard ih => exact ⟨ih.1.step a, ih.2.step ih.1 hguard⟩

end State

/-- As long as every callback that passes the other checks carries the state cookie of its own flow,
every accepted state was issued to the same browser by the same flow and is accepted once; and where
a callback does not carry that cookie, there is a `state` parameter with which it is accepted
unbound. -/
theorem callbacks_bound (cfg : Config Blob) :
    (∀ σ, State.Reach cfg (State.Guarded cfg) σ → Bound σ.events) ∧
    ∀ (σ : State Blob) (browser : Nat) (embedded : Bool) (r : Request) (flow : Flow)
      (state : Option String), State.Reach cfg (fun _ _ => True) σ →
      r.passes cfg (σ.userId browser embedded) = some (flow, state) →
      ¬State.Guarded cfg σ (.request browser embedded r) →
      ∃ state', ¬Bound (σ.step cfg (.request browser embedded (r.withState state'))).events := by
  refine ⟨fun σ h => h.protected.2.bound, fun σ browser embedded r flow state _ hpass hguard => ?_⟩
  have hother : ∀ s, σ.storedState browser embedded = some s →
      .issued browser flow s ∉ σ.events := by
    intro s hs hissued
    refine hguard fun flow' state' hpass' => ?_
    rw [hpass] at hpass'
    cases hpass'
    exact ⟨s, hs, hissued⟩
  refine ⟨σ.storedState browser embedded, ?_⟩
  have hmatch : stateMismatch (σ.storedState browser embedded) (σ.storedState browser embedded) =
      false := by
    cases σ.storedState browser embedded with
    | none => rfl
    | some s => by_cases hs : s = "" <;> simp [stateMismatch, truthy, Option.filter, hs]
  rw [(State.step_accepts σ (passes_withState hpass _) hmatch).1]
  rintro ⟨⟨s, hs, hissued, -⟩, -⟩
  exact hother s hs hissued

end Steps

/-! ### Two runs -/

/-- States that are longer and longer. -/
def unaryState (n : Nat) : String := String.ofList (List.replicate (n + 1) 'x')

theorem unaryState_length (n : Nat) : (unaryState n).toList.length = n + 1 := by
  simp [unaryState]

theorem unaryState_injective (m n : Nat) (h : unaryState m = unaryState n) : m = n := by
  have hm := unaryState_length m
  rw [h, unaryState_length n] at hm
  omega

theorem unaryState_ne (n : Nat) : unaryState n ≠ "" := by
  intro h
  have hn := unaryState_length n
  rw [h] at hn
  cases hn

/-- Everything is configured. -/
def fullConfig : Config JsonObject where
  workosEnabled := true
  clientId _ := true
  envelope := some plainEnvelope
  fromisoformat _ := none
  stdioUser := "default-user"
  tokenUrlsafe := unaryState
  tokenUrlsafe_injective := unaryState_injective
  tokenUrlsafe_ne := unaryState_ne

/-- The login of browser 0, with the state that it was given. -/
def loginActs : List Act :=
  [.request 0 false .login,
    .request 0 false (.authCallback (some "code") (some "x")
      (.body (some "token") (some "user_victim") none none))]

/-- Another site sends browser 0 to the GitHub callback with a code of its own. -/
def forgedCallback : Act :=
  .request 0 false (.callback .github (some "code_attacker") (some "forged")
    (.ok [("access_token", .str "gho_attacker")]) 0)

/-- The token of the forged callback is stored for the user who is logged in, though no state was
issued for it. -/
theorem forged_accepted : ∃ σ, State.Reach fullConfig (fun _ _ => True) σ ∧
    σ.rows.map (fun r => (r.userId, r.provider)) = [("user_victim", "github")] ∧
    ¬Bound σ.events := by
  refine ⟨(loginActs ++ [forgedCallback]).foldl (State.step fullConfig) {},
    (State.Reach.init 0 []).runActs ⟨trivial, trivial, trivial, trivial⟩, rfl, ?_⟩
  rintro ⟨⟨s, hs, hissued, -⟩, -⟩
  cases hs
  revert hissued
  decide

/-- The GitHub flow of browser 0, with the state that it was given. -/
def githubActs : List Act :=
  [.request 0 false (.connect .github),
    .request 0 false (.callback .github (some "code") (some "xx")
      (.ok [("access_token", .str "gho")]) 0)]

/-- A login and a GitHub flow, each with its own state, are bound. -/
theorem honest_bound :
    Bound ((loginActs ++ githubActs).foldl (State.step fullConfig) {}).events := by
  refine (callbacks_bound fullConfig).1 _ ((State.Reach.init 0 []).runActs
    ⟨?_, ?_, ?_, ?_, trivial⟩)
  · intro flow state hpass
    cases hpass
  · intro flow state hpass
    cases hpass
    exact ⟨"x", rfl, by decide⟩
  · intro flow state hpass
    cases hpass
  · intro flow state hpass
    cases hpass
    exact ⟨"xx", rfl, by decide⟩

end TaskScheduler.Web
