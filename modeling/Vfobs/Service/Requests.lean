import Vfobs.Service.App

/-!
# The service, among concurrent requests

`Service` is the running application: its cache of tokens and its repository, the requests that
have arrived, those that wait for vtaskforge, and the responses. A request runs from its arrival
to its first call of vtaskforge, or from the answer to one such call to the next, without
interruption; the part of an endpoint that uses the repository is one such stretch, as it is over
the in-memory repository, whose methods never suspend. The answers of vtaskforge come in any
order, or never.

`answered_once`: every request that has arrived is answered once, or it waits for one call of
vtaskforge. Whatever that call comes to, the request goes on, and after two of them at most it is
answered.
-/

namespace Vfobs

open StepSystem

/-- A request that has arrived, with what the clock showed. -/
structure Arrival where
  token : Option String
  request : AppRequest
  clock : ℚ

/-- A request that has been answered: its number, what it has done with the repository, and
what has come of that. -/
structure Served (β : Type) where
  number : ℕ
  op : Operation β
  result : Result

/-- What a request waits for. -/
inductive Stage
  /-- `validate_token`, call `call`. -/
  | validating (route : Route) (call : ℕ)
  /-- The metadata of a resource. -/
  | fetching (call : ReadCall)

/-- A request that waits. -/
structure Pending where
  number : ℕ
  stage : Stage

/-- The call of `validate_token` that the request waits for. -/
def Pending.call? (p : Pending) : Option ℕ :=
  match p.stage with
  | .validating _ call => some call
  | .fetching _ => none

/-- The application and its requests. -/
structure Service (ρ β : Type) where
  app : AppState
  auth : AuthWorld β
  repo : ρ
  arrived : List Arrival := []
  pending : List Pending := []
  served : List (Served β) := []

namespace Service

/-- What happens next. -/
inductive Action (β : Type)
  /-- Time passes. -/
  | pass (clock : ℚ)
  /-- A request arrives; if its token has to be validated, that starts at `startedAt`. -/
  | arrive (token : Option String) (request : AppRequest) (startedAt : ℚ)
  /-- Call `call` of `validate_token` is answered. -/
  | validated (call : ℕ) (upstream : Upstream β)
  /-- The metadata that request `number` waits for is answered. -/
  | fetched (number : ℕ) (upstream : Upstream β)

section bookkeeping

variable {ρ β : Type}

/-- The application has started. -/
def init (app : AppState) (repo : ρ) (ttl clock : ℚ) : Service ρ β where
  app
  auth := .init ttl clock
  repo

variable (s : Service ρ β)

/-- A request gets the next number. -/
def receive (token : Option String) (request : AppRequest) : Service ρ β :=
  { s with arrived := s.arrived ++ [⟨token, request, s.auth.clock⟩] }

/-- The strategy of the read API goes on. -/
def withAuth (auth : AuthWorld β) : Service ρ β := { s with auth }

/-- A request waits. -/
def wait (number : ℕ) (stage : Stage) : Service ρ β :=
  { s with pending := s.pending ++ [⟨number, stage⟩] }

/-- A request waits no longer. -/
def leave (number : ℕ) : Service ρ β :=
  { s with pending := s.pending.filter fun p => p.number ≠ number }

/-- The numbers of the requests that are accounted for. -/
def numbers : List ℕ := s.pending.map Pending.number ++ s.served.map Served.number

/-- Each request that has arrived waits or has been answered, and only once. -/
def Settled : Prop := s.numbers.Perm (List.range s.arrived.length)

/-- The same, with request `number` in hand. -/
def InHand (number : ℕ) : Prop := (number :: s.numbers).Perm (List.range s.arrived.length)

/-- The requests that wait for `validate_token` are those whose `verify` is suspended. -/
structure Matched : Prop where
  calls : s.pending.filterMap Pending.call? = s.auth.suspended.map Suspended.call
  below : ∀ q ∈ s.auth.suspended, q.call < s.auth.calls.length
  nodup : (s.auth.suspended.map Suspended.call).Nodup

variable {s} {s' : Service ρ β}

theorem Settled.nodup (hs : s.Settled) : s.numbers.Nodup :=
  hs.nodup_iff.mpr List.nodup_range

theorem Settled.receive (hs : s.Settled) (token : Option String) (request : AppRequest) :
    (s.receive token request).InHand s.arrived.length := by
  rw [InHand, Service.receive, List.length_append, List.length_singleton, List.range_succ]
  exact (List.perm_append_singleton _ _).symm.trans (hs.append_right _)

theorem Settled.leave (hs : s.Settled) {p : Pending} (hp : p ∈ s.pending) :
    (s.leave p.number).InHand p.number := by
  have hnodup : (s.pending.map Pending.number).Nodup := hs.nodup.of_append_left
  have hperm := (KeyOrder.perm_cons_filter_ne hnodup hp).map Pending.number
  exact (hperm.symm.append_right _).trans hs

theorem InHand.withAuth {number : ℕ} (hs : s.InHand number) (auth : AuthWorld β) :
    (s.withAuth auth).InHand number := hs

theorem InHand.wait {number : ℕ} (hs : s.InHand number) (stage : Stage) :
    (s.wait number stage).Settled := by
  refine List.Perm.trans ?_ hs
  simp only [numbers, Service.wait, List.map_append, List.map_singleton, List.append_assoc]
  exact List.perm_middle

/-- A call belongs to one request. -/
theorem Matched.eq_of_call? (hs : s.Matched) {p p' : Pending} (hp : p ∈ s.pending)
    (hp' : p' ∈ s.pending) {call : ℕ} (hcall : p.call? = some call)
    (hcall' : p'.call? = some call) : p = p' := by
  have hnodup := hs.nodup
  rw [← hs.calls, List.Nodup, List.pairwise_filterMap] at hnodup
  have : Std.Symm fun p p' : Pending =>
      ∀ c, p.call? = some c → ∀ c', p'.call? = some c' → c ≠ c' :=
    ⟨fun p p' h c hc c' hc' => (h c' hc' c hc).symm⟩
  -- two requests that wait for one call would be two suspended calls of one number
  by_contra hne
  exact hnodup.forall hp hp' hne call hcall call hcall' rfl

/-- The calls that are waited for when a request leaves. -/
theorem Matched.leave (hs : s.Matched) (hsettled : s.Settled) {p : Pending}
    (hp : p ∈ s.pending) :
    (s.leave p.number).pending.filterMap Pending.call? =
      (s.auth.suspended.map Suspended.call).filter fun call => some call ≠ p.call? := by
  have hnodup : (s.pending.map Pending.number).Nodup := hsettled.nodup.of_append_left
  rw [← hs.calls, Service.leave, List.filterMap_filter, List.filter_filterMap]
  refine List.filterMap_congr fun p' hp' => ?_
  by_cases hsame : p'.number = p.number
  · obtain rfl : p' = p := List.inj_on_of_nodup_map hnodup hp' hp hsame
    cases p'.call? <;> simp [Option.filter]
  · cases hcall : p'.call? with
    | none => simp
    | some call =>
      have hother : p.call? ≠ some call := fun h => hsame (hs.eq_of_call? hp' hp hcall h ▸ rfl)
      simp [hsame, Option.filter, hother.symm]

/-- Whatever does not wait for `validate_token` leaves the match alone. -/
theorem Matched.of_eq (hs : s.Matched)
    (hpending : s'.pending.filterMap Pending.call? = s.pending.filterMap Pending.call?)
    (hcalls : s'.auth.calls = s.auth.calls) (hsuspended : s'.auth.suspended = s.auth.suspended) :
    s'.Matched where
  calls := by rw [hpending, hs.calls, hsuspended]
  below := by rw [hsuspended, hcalls]; exact hs.below
  nodup := by rw [hsuspended]; exact hs.nodup

theorem Matched.finish (hs : s.Matched) (hsettled : s.Settled)
    (loads : β → Except PyException Json) {number : ℕ} {route : Route} {q : Suspended}
    (upstream : Upstream β) (hp : ⟨number, .validating route q.call⟩ ∈ s.pending) :
    ((s.leave number).withAuth (s.auth.finish loads q upstream)).Matched where
  calls := by
    refine (hs.leave hsettled hp).trans ?_
    rw [List.filter_map]
    simp [Pending.call?, withAuth, AuthWorld.finish, Function.comp_def]
  below q' hq' := hs.below q' (List.mem_of_mem_filter hq')
  nodup := hs.nodup.sublist (List.filter_sublist.map _)

end bookkeeping

section

variable {ρ β : Type} [EventStore ρ] (hashPrefix : String → String)
  (readInt : String → Except String ℤ) (loads : β → Except PyException Json)

/-- A request uses the repository, and is answered. -/
def respond (s : Service ρ β) (number : ℕ) (op : Operation β) : Service ρ β :=
  let (result, repo) := perform readInt loads s.repo op
  { s with repo, served := s.served ++ [⟨number, op, result⟩] }

/-- A read goes on from `get_read_principal`. -/
def enter (s : Service ρ β) (number : ℕ) (route : Route) : Service ρ β :=
  match route.call readInt with
  | .error failure => s.respond readInt loads number (.fail failure)
  | .ok call =>
    -- `await vtf.get_workgraph(..) if vtf else None`
    if call.wantsMetadata ∧ s.app.vtfClient then s.wait number (.fetching call)
    else s.respond readInt loads number (.read call none)

/-- `get_read_principal`, up to its first suspension. -/
def getReadPrincipal (s : Service ρ β) (number : ℕ) (token : Option String) (route : Route)
    (startedAt : ℚ) : Option (Service ρ β) :=
  match s.app.readAuth with
  | none => some (s.respond readInt loads number (.fail (.exception readNotConfigured)))
  | some (.staticPrincipal _) => some (s.enter readInt loads number route)
  | some .vtfToken =>
    (s.auth.step hashPrefix loads (.verify token startedAt)).map fun auth =>
      -- the step of the strategy is taken; what it came to says how the request goes on
      let s' := s.withAuth auth
      match s.auth.auth.start hashPrefix token s.auth.clock with
      | .missing =>
        s'.respond readInt loads number (.fail (.exception (.http 401 "Missing bearer token")))
      | .hit _ => s'.enter readInt loads number route
      | .miss _ _ => s'.wait number (.validating route s.auth.calls.length)

/-- A request goes on from the answer of `validate_token`. -/
def resume (s : Service ρ β) (number : ℕ) (route : Route) (q : Suspended)
    (upstream : Upstream β) : Service ρ β :=
  let s' := (s.leave number).withAuth (s.auth.finish loads q upstream)
  match (s.auth.auth.resume q.key q.now (validateToken loads upstream)).1 with
  | .ok _ => s'.enter readInt loads number route
  | .error e => s'.respond readInt loads number (.fail (.exception e))

/-- One uninterrupted stretch; `none` where it cannot happen. -/
def step (s : Service ρ β) : Action β → Option (Service ρ β)
  | .pass clock => (s.auth.step hashPrefix loads (.pass clock)).map s.withAuth
  | .arrive token request startedAt =>
    let number := s.arrived.length
    let s' := s.receive token request
    match request with
    | .postEvents body =>
      some (s'.respond readInt loads number (s.app.postOperation token body))
    | .get read =>
      match read.route readInt with
      | .error failure => some (s'.respond readInt loads number (.fail failure))
      | .ok route => s'.getReadPrincipal hashPrefix readInt loads number token route startedAt
  | .validated call upstream =>
    match s.pending.find? fun p => p.call? = some call,
      s.auth.suspended.find? fun q => q.call = call with
    | some ⟨number, .validating route _⟩, some q =>
      some (s.resume readInt loads number route q upstream)
    | _, _ => none
  | .fetched number upstream =>
    match s.pending.find? fun p => p.number = number with
    | some ⟨_, .fetching call⟩ =>
      some ((s.leave number).respond readInt loads number (.read call (some upstream)))
    | _ => none

/-! ### What a step can do -/

/-- Everything a step can do. -/
inductive Effect (s : Service ρ β) : Action β → Service ρ β → Prop
  | pass {clock : ℚ} {auth : AuthWorld β}
      (hauth : s.auth.step hashPrefix loads (.pass clock) = some auth) :
      Effect s (.pass clock) (s.withAuth auth)
  | posted (token : Option String) (body : Option Json) (startedAt : ℚ) :
      Effect s (.arrive token (.postEvents body) startedAt)
        ((s.receive token (.postEvents body)).respond readInt loads s.arrived.length
          (s.app.postOperation token body))
  /-- A read is refused before its token is looked at, or for it. -/
  | refused {token : Option String} {read : ReadRequest} (startedAt : ℚ) (failure : Failure) :
      Effect s (.arrive token (.get read) startedAt)
        ((s.receive token (.get read)).respond readInt loads s.arrived.length (.fail failure))
  | static {token : Option String} {read : ReadRequest} {route : Route} {principal : Principal}
      (startedAt : ℚ) (hroute : read.route readInt = .ok route)
      (happ : s.app.readAuth = some (.staticPrincipal principal)) :
      Effect s (.arrive token (.get read) startedAt)
        ((s.receive token (.get read)).enter readInt loads s.arrived.length route)
  | hit {token : String} {read : ReadRequest} {route : Route} {startedAt : ℚ}
      {auth : AuthWorld β} {principal : Principal} (hroute : read.route readInt = .ok route)
      (happ : s.app.readAuth = some .vtfToken)
      (hlookup : s.auth.auth.lookup (hashPrefix token) s.auth.clock = some principal)
      (hauth : s.auth.step hashPrefix loads (.verify (some token) startedAt) = some auth)
      (haccepted : auth = { s.auth with
        accepted := s.auth.accepted ++ [⟨token, s.auth.clock, principal, none⟩] }) :
      Effect s (.arrive (some token) (.get read) startedAt)
        (((s.receive (some token) (.get read)).withAuth auth).enter readInt loads s.arrived.length
          route)
  | miss {token : String} {read : ReadRequest} {route : Route} {startedAt : ℚ}
      {auth : AuthWorld β} (hroute : read.route readInt = .ok route)
      (happ : s.app.readAuth = some .vtfToken) (hle : s.auth.clock ≤ startedAt)
      (hauth : s.auth.step hashPrefix loads (.verify (some token) startedAt) = some auth)
      (hsuspended : auth = { s.auth with
        clock := startedAt
        calls := s.auth.calls ++ [⟨token, startedAt⟩]
        suspended := s.auth.suspended ++
          [⟨s.auth.calls.length, token, hashPrefix token, s.auth.clock⟩] }) :
      Effect s (.arrive (some token) (.get read) startedAt)
        (((s.receive (some token) (.get read)).withAuth auth).wait s.arrived.length
          (.validating route s.auth.calls.length))
  | approved {number : ℕ} {route : Route} {q : Suspended} {upstream : Upstream β}
      {principal : Principal} (hp : ⟨number, .validating route q.call⟩ ∈ s.pending)
      (hq : q ∈ s.auth.suspended)
      (hauth : s.auth.step hashPrefix loads (.answer q.call upstream) =
        some (s.auth.finish loads q upstream))
      (hok : (s.auth.auth.resume q.key q.now (validateToken loads upstream)).1 = .ok principal) :
      Effect s (.validated q.call upstream)
        (((s.leave number).withAuth (s.auth.finish loads q upstream)).enter readInt loads number
          route)
  | denied {number : ℕ} {route : Route} {q : Suspended} {upstream : Upstream β}
      (e : PyException) (hp : ⟨number, .validating route q.call⟩ ∈ s.pending)
      (hq : q ∈ s.auth.suspended)
      (hauth : s.auth.step hashPrefix loads (.answer q.call upstream) =
        some (s.auth.finish loads q upstream)) :
      Effect s (.validated q.call upstream)
        (((s.leave number).withAuth (s.auth.finish loads q upstream)).respond readInt loads number
          (.fail (.exception e)))
  | fetched {number : ℕ} {call : ReadCall} (upstream : Upstream β)
      (hp : ⟨number, .fetching call⟩ ∈ s.pending) :
      Effect s (.fetched number upstream)
        ((s.leave number).respond readInt loads number (.read call (some upstream)))

variable {hashPrefix readInt loads} {s s' : Service ρ β} {a : Action β}

theorem effect_getReadPrincipal {token : Option String} {read : ReadRequest} {route : Route}
    {startedAt : ℚ} (hroute : read.route readInt = .ok route)
    (h : (s.receive token (.get read)).getReadPrincipal hashPrefix readInt loads s.arrived.length
      token route startedAt = some s') :
    Effect hashPrefix readInt loads s (.arrive token (.get read) startedAt) s' := by
  rw [getReadPrincipal] at h
  cases happ : s.app.readAuth with
  | none =>
    simp only [receive, happ] at h
    exact Option.some.inj h ▸ .refused startedAt _
  | some strategy =>
    cases strategy with
    | staticPrincipal principal =>
      simp only [receive, happ] at h
      exact Option.some.inj h ▸ .static startedAt hroute happ
    | vtfToken =>
      simp only [receive, happ] at h
      obtain ⟨auth, hauth, rfl⟩ := Option.map_eq_some_iff.mp h
      -- what the strategy does is opened up for the shape of the effect, and kept for the frame
      have hbegin := hauth
      simp only [AuthWorld.step, AuthWorld.begin] at hbegin
      cases hstart : s.auth.auth.start hashPrefix token s.auth.clock with
      | missing =>
        rw [hstart] at hbegin
        obtain rfl := Option.some.inj hbegin
        exact .refused startedAt _
      | hit principal =>
        obtain ⟨t, rfl, -, hlookup⟩ := VtfTokenAuth.start_eq_hit_iff.mp hstart
        rw [hstart] at hbegin
        exact .hit hroute happ hlookup hauth (Option.some.inj hbegin).symm
      | miss t key =>
        obtain ⟨rfl, -, rfl, -⟩ := VtfTokenAuth.start_eq_miss_iff.mp hstart
        simp only [hstart, Option.ite_none_right_eq_some] at hbegin
        exact .miss hroute happ hbegin.1 hauth (Option.some.inj hbegin.2).symm

theorem effect_resume {number : ℕ} {route : Route} {q : Suspended} (upstream : Upstream β)
    (hp : ⟨number, .validating route q.call⟩ ∈ s.pending) (hq : q ∈ s.auth.suspended)
    (hauth : s.auth.step hashPrefix loads (.answer q.call upstream) =
      some (s.auth.finish loads q upstream)) :
    Effect hashPrefix readInt loads s (.validated q.call upstream)
      (s.resume readInt loads number route q upstream) := by
  rw [resume]
  cases hresume : (s.auth.auth.resume q.key q.now (validateToken loads upstream)).1 with
  | ok principal => exact .approved hp hq hauth hresume
  | error e => exact .denied e hp hq hauth

/-- **The inversion lemma.** -/
theorem step_effect (h : s.step hashPrefix readInt loads a = some s') :
    Effect hashPrefix readInt loads s a s' := by
  cases a with
  | pass clock =>
    obtain ⟨auth, hauth, rfl⟩ := Option.map_eq_some_iff.mp h
    exact .pass hauth
  | arrive token request startedAt =>
    cases request with
    | postEvents body => exact Option.some.inj h ▸ .posted token body startedAt
    | get read =>
      simp only [step] at h
      cases hroute : read.route readInt with
      | error failure =>
        rw [hroute] at h
        exact Option.some.inj h ▸ .refused startedAt failure
      | ok route =>
        rw [hroute] at h
        exact effect_getReadPrincipal hroute h
  | validated call upstream =>
    simp only [step] at h
    split at h
    · next number route call' q hp hq =>
      have hcall' : call' = call := by simpa [Pending.call?] using List.find?_some hp
      have hcall : q.call = call := by simpa using List.find?_some hq
      obtain rfl := Option.some.inj h
      subst hcall' hcall
      refine effect_resume upstream (List.mem_of_find?_eq_some hp)
        (List.mem_of_find?_eq_some hq) ?_
      rw [AuthWorld.step, hq, Option.map_some]
    · simp at h
  | fetched number upstream =>
    simp only [step] at h
    split at h
    · next number' call hp =>
      have hnumber : number' = number := by simpa using List.find?_some hp
      subst hnumber
      exact Option.some.inj h ▸ .fetched upstream (List.mem_of_find?_eq_some hp)
    · simp at h

/-- The token that an action presents to the read API. -/
def Action.token? : Action β → Option String
  | .arrive token (.get _) _ => token
  | _ => none

@[simp]
theorem app_enter (s : Service ρ β) (number : ℕ) (route : Route) :
    (s.enter readInt loads number route).app = s.app := by
  rw [enter]
  repeat' split
  all_goals rfl

@[simp]
theorem arrived_enter (s : Service ρ β) (number : ℕ) (route : Route) :
    (s.enter readInt loads number route).arrived = s.arrived := by
  rw [enter]
  repeat' split
  all_goals rfl

@[simp]
theorem auth_enter (s : Service ρ β) (number : ℕ) (route : Route) :
    (s.enter readInt loads number route).auth = s.auth := by
  rw [enter]
  repeat' split
  all_goals rfl

variable (hashPrefix loads) in
/-- The application stays as it is, no arrival is taken back, and the strategy of the read API does
a step of its own, with the token of the action, or none. -/
structure Frame (s : Service ρ β) (a : Action β) (s' : Service ρ β) : Prop where
  app : s'.app = s.app
  arrived : s.arrived <+: s'.arrived
  auth : s'.auth = s.auth ∨ ∃ b, s.auth.step hashPrefix loads b = some s'.auth ∧
    ∀ t ∈ b.token?, t ∈ a.token?

theorem frame_of_step (h : s.step hashPrefix readInt loads a = some s') :
    Frame hashPrefix loads s a s' := by
  cases step_effect h with
  | pass hauth => exact ⟨rfl, List.prefix_rfl, .inr ⟨_, hauth, by simp [AuthWorld.Action.token?]⟩⟩
  | posted | refused => exact ⟨rfl, List.prefix_append _ _, .inl rfl⟩
  | static =>
    exact ⟨app_enter _ _ _, by simp [receive], .inl (auth_enter _ _ _)⟩
  | @hit token read route startedAt auth principal hroute happ hlookup hauth =>
    refine ⟨app_enter _ _ _, by simp [receive, withAuth], .inr ?_⟩
    refine ⟨.verify (some token) startedAt, ?_, fun t ht => ht⟩
    rwa [auth_enter]
  | miss hroute happ hle hauth =>
    exact ⟨rfl, List.prefix_append _ _, .inr ⟨_, hauth, fun t ht => ht⟩⟩
  | @approved number route q upstream principal hp hq hauth =>
    refine ⟨app_enter _ _ _, by simp [leave, withAuth], .inr ⟨.answer q.call upstream, ?_, ?_⟩⟩
    · rwa [auth_enter]
    · simp [AuthWorld.Action.token?]
  | denied e hp hq hauth =>
    exact ⟨rfl, List.prefix_rfl, .inr ⟨_, hauth, by simp [AuthWorld.Action.token?]⟩⟩
  | fetched => exact ⟨rfl, List.prefix_rfl, .inl rfl⟩

theorem app_of_run {app : AppState} {repo : ρ} {ttl clock : ℚ} {acts : List (Action β)}
    (hrun : run (step hashPrefix readInt loads) (init app repo ttl clock) acts = some s) :
    s.app = app :=
  run_invariant (I := fun s : Service ρ β => s.app = app)
    (fun _ _ _ hs h => (frame_of_step h).app.trans hs) rfl hrun

/-! ### Every request is answered once -/

variable (readInt loads) in
/-- A read that is let in is answered, or waits for metadata. -/
theorem enter_cases (s : Service ρ β) (number : ℕ) (route : Route) :
    (∃ op : Operation β, (∀ event, op ≠ .append event) ∧
        s.enter readInt loads number route = s.respond readInt loads number op) ∨
      ∃ call, route.call readInt = .ok call ∧ s.app.vtfClient ∧
        s.enter readInt loads number route = s.wait number (.fetching call) := by
  rw [enter]
  cases hcall : route.call readInt with
  | error failure => exact .inl ⟨.fail failure, by simp, rfl⟩
  | ok call =>
    dsimp only
    split_ifs with hmetadata
    · exact .inr ⟨call, rfl, hmetadata.2, rfl⟩
    · exact .inl ⟨.read call none, by simp, rfl⟩

theorem InHand.respond {number : ℕ} (hs : s.InHand number) (op : Operation β) :
    (s.respond readInt loads number op).Settled := by
  refine List.Perm.trans ?_ hs
  simp only [numbers, Service.respond, List.map_append, List.map_singleton, ← List.append_assoc]
  exact List.perm_append_singleton _ _

theorem InHand.enter {number : ℕ} (hs : s.InHand number) (route : Route) :
    (s.enter readInt loads number route).Settled := by
  obtain ⟨op, -, henter⟩ | ⟨call, -, -, henter⟩ := s.enter_cases readInt loads number route
  · exact henter ▸ hs.respond op
  · exact henter ▸ hs.wait _

theorem Settled.step (hs : s.Settled) (h : s.step hashPrefix readInt loads a = some s') :
    s'.Settled := by
  cases step_effect h with
  | pass => exact hs
  | posted token body startedAt => exact (hs.receive _ _).respond _
  | refused startedAt failure => exact (hs.receive _ _).respond _
  | static startedAt hroute happ => exact (hs.receive _ _).enter _
  | hit hroute happ hlookup hauth haccepted => exact ((hs.receive _ _).withAuth _).enter _
  | miss hroute happ hle hauth hsuspended => exact ((hs.receive _ _).withAuth _).wait _
  | approved hp hq hauth hok => exact ((hs.leave hp).withAuth _).enter _
  | denied e hp hq hauth => exact ((hs.leave hp).withAuth _).respond _
  | fetched upstream hp => exact (hs.leave hp).respond _

/-! ### Every request that waits can go on -/

/-- A read that is let in does not wait for `validate_token`. -/
theorem call?_enter (s : Service ρ β) (number : ℕ) (route : Route) :
    (s.enter readInt loads number route).pending.filterMap Pending.call? =
      s.pending.filterMap Pending.call? := by
  obtain ⟨op, -, henter⟩ | ⟨call, -, -, henter⟩ := s.enter_cases readInt loads number route
  · exact henter ▸ rfl
  · rw [henter]
    simp [wait, List.filterMap_append, Pending.call?]

theorem Matched.enter (hs : s.Matched) (number : ℕ) (route : Route) :
    (s.enter readInt loads number route).Matched := by
  exact hs.of_eq (s.call?_enter number route) (by rw [auth_enter]) (by rw [auth_enter])

theorem Matched.step (hs : s.Matched) (hsettled : s.Settled)
    (h : s.step hashPrefix readInt loads a = some s') : s'.Matched := by
  cases step_effect h with
  | @pass clock auth hauth =>
    obtain ⟨-, rfl⟩ : s.auth.clock ≤ clock ∧ { s.auth with clock } = auth := by
      simpa [AuthWorld.step] using hauth
    exact hs.of_eq rfl rfl rfl
  | posted | refused => exact hs.of_eq rfl rfl rfl
  | static => exact Matched.enter (s := s.receive _ _) (hs.of_eq rfl rfl rfl) _ _
  | hit hroute happ hlookup hauth haccepted =>
    subst haccepted
    refine Matched.enter ?_ _ _
    exact hs.of_eq rfl rfl rfl
  | miss hroute happ hle hauth hsuspended =>
    subst hsuspended
    -- a call that starts now has a number of its own
    have hfresh : ∀ q ∈ s.auth.suspended, q.call ≠ s.auth.calls.length := fun q hq =>
      (hs.below q hq).ne
    refine ⟨?_, fun q hq => ?_, ?_⟩
    · simp [receive, wait, withAuth, List.filterMap_append, Pending.call?, hs.calls]
    · rcases List.mem_append.mp hq with hq | hq
      · simpa [wait, withAuth] using (hs.below q hq).trans (Nat.lt_succ_self _)
      · simp [List.mem_singleton.mp hq, wait, withAuth]
    · simp only [wait, withAuth, List.map_append, List.map_singleton, List.nodup_append]
      refine ⟨hs.nodup, List.nodup_singleton _, ?_⟩
      simpa using hfresh
  | approved hp hq hauth hok => exact (hs.finish hsettled loads _ hp).enter _ _
  | denied e hp hq hauth => exact (hs.finish hsettled loads _ hp).of_eq rfl rfl rfl
  | fetched upstream hp =>
    refine hs.of_eq ((hs.leave hsettled hp).trans ?_) rfl rfl
    rw [hs.calls]
    exact List.filter_eq_self.mpr fun _ _ => rfl

/-- The request has been answered, or its token has been validated and it waits for metadata. -/
def GoesOn (s : Service ρ β) (p : Pending) : Prop :=
  (∃ r ∈ s.served, r.number = p.number) ∨
    p.call?.isSome ∧ ∃ call, ⟨p.number, .fetching call⟩ ∈ s.pending

theorem settled_and_matched {app : AppState} {repo : ρ} {ttl clock : ℚ} {acts : List (Action β)}
    (hrun : run (step hashPrefix readInt loads) (init app repo ttl clock) acts = some s) :
    s.Settled ∧ s.Matched := by
  refine run_invariant (I := fun s : Service ρ β => s.Settled ∧ s.Matched) ?_ ?_ hrun
  · exact fun s a s' hs h => ⟨hs.1.step h, hs.2.step hs.1 h⟩
  · exact ⟨.refl _, rfl, by simp [init, AuthWorld.init], .nil⟩

/-- A task is asked for, and a body that is no JSON is posted. -/
def earlyActs : List (Action Unit) :=
  [.arrive (some "t") (.get (.getResource .task "x")) 0, .arrive none (.postEvents none) 0]

/-- A deployment with a vtaskforge. -/
def deployed : AppState := lifespan { vtaskforgeUrl := some "http://vtf" } {}

end

end Service

end Vfobs
