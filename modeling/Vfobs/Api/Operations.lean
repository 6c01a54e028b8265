import Vfobs.Api.Cost
import Vfobs.Api.Degradation
import Vfobs.Api.Events
import Vfobs.Api.QueryString
import Vfobs.Api.Reads

/-!
# The endpoints as operations on a log

Whatever a request does with the repository it does in one stretch, once it has been let in:
it stores an event, or it reads. `Operation` is that stretch, with what vtaskforge has answered,
and `perform` carries it out on a repository with the functions of the endpoints.

In the abstract a repository is an append-only log (`LogState`) and an operation is an `append`
or a function of the log (`EventLog.serve`). `perform_refines`: over the in-memory repository
an operation does to the log what it does in the abstract, with the same result.
-/

namespace Vfobs

/-- A call of a `GET` endpoint. -/
inductive ReadCall
  | getResource (kind : ResourceKind) (id : String)
  | getTaskEvents (taskId : String) (fromId : Option ℤ) (limit : ℤ)
  | listEvents (q : EventQuery)
  | workgraphCost (workgraphId : String)
  | agentCost (agentId : String)

/-- What it returns. -/
inductive ReadBody
  | resource (kind : ResourceKind) (response : ReadResponse kind.Part)
  | taskEvents (response : TaskEventsResponse)
  | events (response : EventsFilterResponse)
  | workgraphCost (response : WorkgraphCostResponse)
  | agentCost (response : AgentCostResponse)

/-- A repository with its `store`. -/
class EventStore (ρ : Type) extends EventRepository ρ where
  store : ρ → Event → Except RepositoryError ℤ × ρ

instance : EventStore InMemoryEventRepository where
  store repo event := (.ok (repo.store event).1, (repo.store event).2)

instance : EventStore PostgresEventRepository where
  store := PostgresEventRepository.store

section operations

variable {β : Type} (readInt : String → Except String ℤ) (loads : β → Except PyException Json)

/-- The endpoints; `vtf` is what the call of vtaskforge for the metadata has come to. -/
def serveCall {ρ : Type} [EventRepository ρ] (repo : ρ) (vtf : Option (Upstream β)) :
    ReadCall → Except PyException ReadBody
  | .getResource kind id => (kind.get readInt loads id vtf repo).map (.resource kind)
  | .getTaskEvents taskId fromId limit =>
    ((getTaskEvents repo taskId fromId limit).mapError RepositoryError.exception).map .taskEvents
  | .listEvents q => ((listEvents repo q).mapError RepositoryError.exception).map .events
  | .workgraphCost w => (workgraphCost w repo repo).map .workgraphCost
  | .agentCost a => (agentCost a repo repo).map .agentCost

/-! ### The log -/

/-- A rollup of the log, behind the `404` gate. -/
def EventLog.cost (log : EventLog) (strategy : CostAggregationStrategy) :
    Except PyException CostSummary :=
  if ∃ se ∈ log.entries, strategy.Covers se.event then
    .ok (exactSummary (strategy.summaries log))
  else .error (.http 404 "no events for this scope")

/-- The part of a resource that comes from the log, behind the `404` gate. -/
def EventLog.resource (log : EventLog) (kind : ResourceKind) (id : String)
    (metadata : Option kind.Metadata) : Except PyException (ReadResponse kind.Part) :=
  if metadata.isNone ∧ log.count (kind.Owns id) = 0 then .error (.http 404 kind.notFound)
  else .ok {
    id
    vtf := metadata.map kind.fromMetadata
    vfobs := .build (log.count (kind.Owns id)) (log.last (kind.Owns id)) }

/-- A page of some entries of the log, with the cursor of the next. -/
def EventLog.pageFrom (log : EventLog) (p : Event → Prop) [DecidablePred p] (fromId : Option ℤ)
    (limit : ℤ) : List StoredEvent × Option ℤ :=
  let page := Keyset.page StoredEvent.id fromId (pageSize limit) (log.select p)
  (page, Keyset.nextCursor StoredEvent.id (pageSize limit) page)

/-- The endpoints, as functions of the log. -/
def EventLog.serve (log : EventLog) (vtf : Option (Upstream β)) :
    ReadCall → Except PyException ReadBody
  | .getResource kind id =>
    (log.resource kind id (kind.fetch readInt loads vtf)).map (.resource kind)
  | .getTaskEvents taskId fromId limit =>
    let (events, nextFromId) := log.pageFrom (fun e => e.taskId = some taskId) fromId limit
    .ok (.taskEvents { taskId, events, nextFromId })
  | .listEvents q =>
    let (events, nextFromId) := log.pageFrom q.filter.Matches q.fromId q.limit
    .ok (.events { events, nextFromId, filterApplied := q.filterApplied })
  | .workgraphCost workgraphId =>
    (log.cost (.byWorkgraph workgraphId)).map fun summary =>
      .workgraphCost { workgraphId, summary }
  | .agentCost agentId =>
    (log.cost (.byAgent agentId)).map fun summary => .agentCost { agentId, summary }

/-- The rollups that a call asks for are those of the log. -/
def ReadCall.RollsUp {ρ : Type} [EventRepository ρ] (repo : ρ) (log : EventLog) : ReadCall → Prop
  | .workgraphCost w => (CostAggregationStrategy.byWorkgraph w).compute repo =
      .ok (exactSummary ((CostAggregationStrategy.byWorkgraph w).summaries log))
  | .agentCost a => (CostAggregationStrategy.byAgent a).compute repo =
      .ok (exactSummary ((CostAggregationStrategy.byAgent a).summaries log))
  | _ => True

theorem CostAggregationStrategy.run_of_rollsUp {ρ : Type} [EventRepository ρ] {repo : ρ}
    {log : EventLog} (h : Represents repo log) {strategy : CostAggregationStrategy}
    (hcost : strategy.compute repo = .ok (exactSummary (strategy.summaries log))) :
    strategy.run repo repo = log.cost strategy := by
  rw [run_eq h, hcost, EventLog.cost]
  rfl

theorem serveCall_workgraphCost {ρ : Type} [EventRepository ρ] (repo : ρ)
    (vtf : Option (Upstream β)) (workgraphId : String) :
    serveCall readInt loads repo vtf (.workgraphCost workgraphId) =
      ((CostAggregationStrategy.byWorkgraph workgraphId).run repo repo).map fun summary =>
        .workgraphCost { workgraphId, summary } := by
  rw [serveCall, workgraphCost]
  cases (CostAggregationStrategy.byWorkgraph workgraphId).run repo repo <;> rfl

theorem serveCall_agentCost {ρ : Type} [EventRepository ρ] (repo : ρ)
    (vtf : Option (Upstream β)) (agentId : String) :
    serveCall readInt loads repo vtf (.agentCost agentId) =
      ((CostAggregationStrategy.byAgent agentId).run repo repo).map fun summary =>
        .agentCost { agentId, summary } := by
  rw [serveCall, agentCost]
  cases (CostAggregationStrategy.byAgent agentId).run repo repo <;> rfl

/-- **The endpoints are functions of the log** that their repository represents. -/
theorem serveCall_eq {ρ : Type} [EventRepository ρ] {repo : ρ} {log : EventLog}
    (h : Represents repo log) (vtf : Option (Upstream β)) {call : ReadCall}
    (hcost : call.RollsUp repo log) :
    serveCall readInt loads repo vtf call = log.serve readInt loads vtf call := by
  cases call with
  | getResource kind id =>
    rw [serveCall, ResourceKind.get, kind.read_eq h h]
    rfl
  | getTaskEvents taskId fromId limit =>
    rw [serveCall, getTaskEvents_eq h]
    rfl
  | listEvents q =>
    rw [serveCall, listEvents_eq h]
    rfl
  | workgraphCost w =>
    rw [serveCall_workgraphCost, CostAggregationStrategy.run_of_rollsUp h hcost]
    rfl
  | agentCost a =>
    rw [serveCall_agentCost, CostAggregationStrategy.run_of_rollsUp h hcost]
    rfl

/-- The in-memory repository rolls up its log. -/
theorem InMemoryEventRepository.rollsUp (repo : InMemoryEventRepository) (call : ReadCall) :
    call.RollsUp repo repo.log := by
  cases call with
  | workgraphCost w => exact repo.costSummary_eq (some w) none (by simp [OneScope])
  | agentCost a => exact repo.costSummary_eq none (some a) (by simp [OneScope])
  | getResource | getTaskEvents | listEvents => trivial

/-! ### Operations -/

/-- How a request fails. -/
inductive Failure
  | exception (e : PyException)
  /-- The `422` of `build_event_query`. -/
  | badQuery (errors : List QueryError)
  /-- The `422` for a body that is no event. -/
  | badBody

/-- What a request does with the repository. -/
inductive Operation (β : Type)
  /-- `post_events` stores the event. -/
  | append (event : Event)
  /-- A `GET` endpoint is called; `vtf` is what vtaskforge has answered. -/
  | read (call : ReadCall) (vtf : Option (Upstream β))
  /-- Nothing: the request has failed before. -/
  | fail (failure : Failure)

/-- What a request comes to. -/
inductive Result
  /-- `201`, with the id. -/
  | created (id : ℤ)
  /-- `200`. -/
  | ok (body : ReadBody)
  | failed (failure : Failure)

/-- The result of a `GET` endpoint. -/
def Result.ofRead : Except PyException ReadBody → Result
  | .ok body => .ok body
  | .error e => .failed (.exception e)

/-- The result of `post_events`. -/
def Result.ofStore : Except RepositoryError ℤ → Result
  | .ok id => .created id
  | .error e => .failed (.exception e.exception)

theorem Result.ofRead_ne_created (outcome : Except PyException ReadBody) (id : ℤ) :
    Result.ofRead outcome ≠ .created id := by
  cases outcome <;> simp [Result.ofRead]

section perform

variable {ρ : Type} [EventStore ρ]

/-- Carry out an operation. -/
def perform (repo : ρ) : Operation β → Result × ρ
  | .append event =>
    let (outcome, repo) := EventStore.store repo event
    (.ofStore outcome, repo)
  | .read call vtf => (.ofRead (serveCall readInt loads repo vtf call), repo)
  | .fail failure => (.failed failure, repo)

/-- Carry out operations in turn. -/
def performAll (repo : ρ) : List (Operation β) → List Result × ρ
  | [] => ([], repo)
  | op :: ops =>
    let (result, repo) := perform readInt loads repo op
    let (results, repo) := performAll repo ops
    (result :: results, repo)

theorem performAll_append (repo : ρ) (ops ops' : List (Operation β)) :
    performAll readInt loads repo (ops ++ ops') =
      ((performAll readInt loads repo ops).1 ++
          (performAll readInt loads (performAll readInt loads repo ops).2 ops').1,
        (performAll readInt loads (performAll readInt loads repo ops).2 ops').2) := by
  induction ops generalizing repo with
  | nil => rfl
  | cons op ops ih =>
    simp only [List.cons_append, performAll, ih]

end perform

/-- An append is what the pipeline of `post_events` does. -/
theorem perform_append (repo : InMemoryEventRepository) (principal : String) (event : Event) :
    ∃ id repo', postEvents repo principal event = (.ok id, repo') ∧
      perform readInt loads repo (.append event : Operation β) = (.created id, repo') :=
  ⟨_, _, postEvents_eq repo principal event, rfl⟩

/-- A log, with the id of the next event. -/
structure LogState where
  log : EventLog
  nextId : ℤ
  fresh : ∀ se ∈ log.entries, se.id < nextId

namespace LogState

theorem eq_of_entries {s t : LogState} (hentries : s.log.entries = t.log.entries)
    (hid : s.nextId = t.nextId) : s = t := by
  obtain ⟨⟨_, _⟩, _, _⟩ := s
  obtain ⟨⟨_, _⟩, _, _⟩ := t
  obtain rfl : _ = _ := hentries
  obtain rfl : _ = _ := hid
  rfl

/-- One more event. -/
def append (s : LogState) (event : Event) : LogState where
  log.entries := s.log.entries ++ [⟨s.nextId, event⟩]
  log.sorted := by
    refine List.pairwise_append.mpr ⟨s.log.sorted, List.pairwise_singleton _ _, ?_⟩
    intro se hse last hlast
    rw [List.mem_singleton.mp hlast]
    exact s.fresh se hse
  nextId := s.nextId + 1
  fresh := by
    intro se hse
    rcases List.mem_append.mp hse with hse | hse
    · exact (s.fresh se hse).trans (Int.lt_succ _)
    · rw [List.mem_singleton.mp hse]
      exact Int.lt_succ _

/-- An operation, in the abstract. -/
def perform (s : LogState) : Operation β → Result × LogState
  | .append event => (.created s.nextId, s.append event)
  | .read call vtf => (.ofRead (s.log.serve readInt loads vtf call), s)
  | .fail failure => (.failed failure, s)

/-- Operations in turn. -/
def performAll (s : LogState) : List (Operation β) → List Result × LogState
  | [] => ([], s)
  | op :: ops =>
    let (result, s) := s.perform readInt loads op
    let (results, s) := performAll s ops
    (result :: results, s)

theorem performAll_append (s : LogState) (ops ops' : List (Operation β)) :
    s.performAll readInt loads (ops ++ ops') =
      ((s.performAll readInt loads ops).1 ++
          ((s.performAll readInt loads ops).2.performAll readInt loads ops').1,
        ((s.performAll readInt loads ops).2.performAll readInt loads ops').2) := by
  induction ops generalizing s with
  | nil => rfl
  | cons op ops ih =>
    simp only [List.cons_append, performAll, ih]

/-- The log only grows. -/
theorem entries_perform (s : LogState) (op : Operation β) :
    s.log.entries <+: (s.perform readInt loads op).2.log.entries := by
  cases op with
  | append event => exact List.prefix_append _ _
  | read | fail => exact List.prefix_rfl

theorem entries_performAll (s : LogState) (ops : List (Operation β)) :
    s.log.entries <+: (s.performAll readInt loads ops).2.log.entries := by
  induction ops generalizing s with
  | nil => exact List.prefix_rfl
  | cons op ops ih => exact (s.entries_perform readInt loads op).trans (ih _)

end LogState

/-! ### In memory -/

namespace InMemoryEventRepository

/-- The log of a repository and its next id. -/
def state (repo : InMemoryEventRepository) : LogState where
  log := repo.log
  nextId := repo.nextId
  fresh se hse := repo.fresh (se.id, se.event) (mem_log.mp hse)

theorem state_store (repo : InMemoryEventRepository) (event : Event) :
    (repo.store event).2.state = repo.state.append event :=
  LogState.eq_of_entries (repo.log_store event) rfl

/-- **An operation on the repository is one on its log.** -/
theorem perform_refines (repo : InMemoryEventRepository) (op : Operation β) :
    ((perform readInt loads repo op).1, (perform readInt loads repo op).2.state) =
      repo.state.perform readInt loads op := by
  cases op with
  | append event => exact Prod.ext rfl (repo.state_store event)
  | read call vtf =>
    -- a read leaves the repository as it is
    have hserve := serveCall_eq readInt loads repo.represents vtf
      (repo.rollsUp call)
    exact Prod.ext (congrArg Result.ofRead hserve) rfl
  | fail failure => rfl

theorem performAll_refines (repo : InMemoryEventRepository) (ops : List (Operation β)) :
    ((performAll readInt loads repo ops).1, (performAll readInt loads repo ops).2.state) =
      repo.state.performAll readInt loads ops := by
  induction ops generalizing repo with
  | nil => rfl
  | cons op ops ih =>
    have hop := repo.perform_refines readInt loads op
    simp only [performAll, LogState.performAll, ← hop, ← ih]

end InMemoryEventRepository

end operations

end Vfobs
