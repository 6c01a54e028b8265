import Vfobs.Api.AnyEvent
import Vfobs.Api.Auth
import Vfobs.Api.ConcurrentAuth
import Vfobs.Api.Operations

/-!
# The application

What `create_app` and `_lifespan` put into `app.state`, and what FastAPI does with a request
before an endpoint is called. The dependencies of an endpoint are solved in the order of its
parameters, and its own parameters are read after them:

* `POST /events` decodes its body, calls `get_principal` and then validates the body;
* `GET /events` calls `build_event_query` and then `get_read_principal`;
* every other read calls `get_read_principal` first.
-/

namespace Vfobs

/-- `Settings`, as far as the application reads them. -/
structure Settings where
  ingestToken : String := "changeme"
  vtaskforgeUrl : Option String := none

/-- `ReadAuth`; the cache of a `VtfTokenAuth` is kept in an `AuthWorld`. -/
inductive ReadAuth
  | vtfToken
  | staticPrincipal (principal : Principal)

/-- The arguments of `create_app` beside its settings and its repository. -/
structure Injected where
  ingestAuth : Option StaticTokenAuth := none
  readAuth : Option ReadAuth := none
  vtfClient : Bool := false

/-- `app.state`. -/
structure AppState where
  ingestAuth : StaticTokenAuth
  readAuth : Option ReadAuth
  vtfClient : Bool

/-- `_lifespan`, from the state that `create_app` leaves. -/
def lifespan (settings : Settings) (injected : Injected) : AppState where
  ingestAuth := injected.ingestAuth.getD ⟨settings.ingestToken⟩
  readAuth :=
    -- without a vtaskforge the read API has what is injected, or answers `503`
    if settings.vtaskforgeUrl.isSome then some (injected.readAuth.getD .vtfToken)
    else injected.readAuth
  vtfClient := settings.vtaskforgeUrl.isSome || injected.vtfClient

/-! ### Requests -/

/-- A request for a `GET` endpoint; its query string is not read yet. -/
inductive ReadRequest
  | getResource (kind : ResourceKind) (id : String)
  | getTaskEvents (taskId : String) (queryParams : List (String × String))
  | listEvents (queryParams : List (String × String))
  | workgraphCost (workgraphId : String)
  | agentCost (agentId : String)

/-- A request; the body is `none` when it is no JSON. -/
inductive AppRequest
  | postEvents (body : Option Json)
  | get (read : ReadRequest)

/-- A read once the dependencies before `get_read_principal` have been called. -/
inductive Route
  | getResource (kind : ResourceKind) (id : String)
  | getTaskEvents (taskId : String) (queryParams : List (String × String))
  | listEvents (q : EventQuery)
  | workgraphCost (workgraphId : String)
  | agentCost (agentId : String)

variable (readInt : String → Except String ℤ)

/-- The dependencies before `get_read_principal`. -/
def ReadRequest.route : ReadRequest → Except Failure Route
  | getResource kind id => .ok (.getResource kind id)
  | getTaskEvents taskId queryParams => .ok (.getTaskEvents taskId queryParams)
  | listEvents queryParams =>
    match buildEventQuery readInt queryParams with
    | .ok q => .ok (.listEvents q)
    | .error errors => .error (.badQuery errors)
  | workgraphCost workgraphId => .ok (.workgraphCost workgraphId)
  | agentCost agentId => .ok (.agentCost agentId)

/-- An `int` parameter of an endpoint. -/
def queryInt (raw : List (String × String)) (name : String) : Except QueryError (Option ℤ) :=
  match raw.lookup name with
  | none => .ok none
  | some input =>
    match readInt input with
    | .ok n => .ok (some n)
    | .error type => .error ⟨type, ["query", name], input⟩

/-- The parameters of the endpoint itself. -/
def Route.call : Route → Except Failure ReadCall
  | getResource kind id => .ok (.getResource kind id)
  | getTaskEvents taskId queryParams =>
    let raw := Dict.ofPairs queryParams
    match queryInt readInt raw "from_id", queryInt readInt raw "limit" with
    | .ok fromId, .ok limit => .ok (.getTaskEvents taskId fromId (limit.getD 100))
    -- all errors are in one response
    | fromId, limit =>
      .error (.badQuery (EventQuery.ofRaw.errorsOf fromId ++ EventQuery.ofRaw.errorsOf limit))
  | listEvents q => .ok (.listEvents q)
  | workgraphCost workgraphId => .ok (.workgraphCost workgraphId)
  | agentCost agentId => .ok (.agentCost agentId)

/-- What a read calls, if it is let in. -/
def ReadRequest.call (read : ReadRequest) : Except Failure ReadCall :=
  read.route readInt >>= Route.call readInt

/-- The endpoint asks vtaskforge for metadata, if there is a client. -/
def ReadCall.wantsMetadata : ReadCall → Bool
  | getResource _ _ => true
  | _ => false

/-- `get_principal`. -/
def AppState.getPrincipal (app : AppState) (token : Option String) : Except PyException String :=
  app.ingestAuth.verify token

/-- What `POST /events` does with the repository. -/
def AppState.postOperation {β : Type} (app : AppState) (token : Option String) :
    Option Json → Operation β
  -- the body is decoded before the dependencies are called, and validated after
  | none => .fail .badBody
  | some body =>
    match app.getPrincipal token with
    | .error e => .fail (.exception e)
    | .ok _ =>
      match AnyEvent.validate body with
      | none => .fail .badBody
      | some event => .append event

/-- The `503` of `get_read_principal`. -/
def readNotConfigured : PyException :=
  .http 503 "read API not configured (VFOBS_VTASKFORGE_URL unset)"

/-- Only the configured token is let in. -/
theorem StaticTokenAuth.eq_expected_of_verify {auth : StaticTokenAuth} {token : Option String}
    {principal : String} (h : auth.verify token = .ok principal) : token = some auth.expected := by
  cases token with
  | none => exact nomatch h
  | some token =>
    rw [verify] at h
    split_ifs at h with hempty
    by_cases hascii : IsAscii token ∧ IsAscii auth.expected
    · by_cases hsame : token = auth.expected
      · exact congrArg some hsame
      · simp [compareDigest, hascii, hsame, bind, Except.bind] at h
    · simp [compareDigest, hascii, bind, Except.bind] at h

/-- A post that stores has presented the configured token and an event. -/
theorem AppState.of_postOperation_eq_append {β : Type} {app : AppState} {token : Option String}
    {body : Option Json} {event : Event}
    (h : (app.postOperation token body : Operation β) = .append event) :
    token = some app.ingestAuth.expected ∧
      ∃ j, body = some j ∧ AnyEvent.validate j = some event := by
  cases body with
  | none => exact nomatch h
  | some j =>
    rw [postOperation] at h
    cases hprincipal : app.getPrincipal token with
    | error e =>
      rw [hprincipal] at h
      exact nomatch h
    | ok principal =>
      rw [hprincipal] at h
      cases hvalid : AnyEvent.validate j with
      | none =>
        rw [hvalid] at h
        exact nomatch h
      | some event' =>
        simp only [hvalid, Operation.append.injEq] at h
        exact ⟨StaticTokenAuth.eq_expected_of_verify hprincipal, j, rfl, h ▸ hvalid⟩

/-- A post does not read. -/
theorem AppState.postOperation_ne_read {β : Type} (app : AppState) (token : Option String)
    (body : Option Json) (call : ReadCall) (vtf : Option (Upstream β)) :
    app.postOperation token body ≠ .read call vtf := by
  cases body with
  | none => simp [postOperation]
  | some j =>
    rw [postOperation]
    cases app.getPrincipal token with
    | error e => simp
    | ok principal => cases AnyEvent.validate j <;> simp

end Vfobs
