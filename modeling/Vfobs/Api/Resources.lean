import Vfobs.Adapters.Vtf
import Vfobs.Repositories.EventRepository

/-!
# The resource endpoints

`GET /workgraphs/<id>` and `GET /tasks/<id>` compose what vtaskforge knows of a resource with
what the event repository does. The two differ in the methods they call and in the parts of
their responses: a `ResourceKind` stands for either, and `getWorkgraph` and `getTask` are its
`read`.

An endpoint asks the repository twice, for a count and for the last event, so `read` takes
two states of it. `read_eq`: on states that represent logs, the response has the number of
events in the first log and the last event of the second.
-/

namespace Vfobs

/-- `VtfWorkgraphPart`. -/
structure VtfWorkgraphPart where
  status : Option String := none
  name : Option String := none
  description : Option String := none
  order : Option ℤ := none

/-- `VtfWorkgraphPart.from_metadata`. -/
def VtfWorkgraphPart.fromMetadata (m : WorkgraphMetadata) : VtfWorkgraphPart where
  status := m.status
  name := m.name
  description := m.description
  order := m.order

/-- `VtfTaskPart`. -/
structure VtfTaskPart where
  status : Option String := none
  title : Option String := none
  description : Option String := none

/-- `VtfTaskPart.from_metadata`. -/
def VtfTaskPart.fromMetadata (m : TaskMetadata) : VtfTaskPart where
  status := m.status
  title := m.title
  description := m.description

/-- `VfobsPart`. -/
structure VfobsPart where
  eventCount : ℕ
  lastEventId : Option ℤ := none
  lastEventType : Option String := none
  lastEventAt : Option IsoDatetime := none

/-- `VfobsPart.build`. -/
def VfobsPart.build (count : ℕ) : Option StoredEvent → VfobsPart
  | none => { eventCount := count }
  | some tail => {
      eventCount := count
      lastEventId := some tail.id
      lastEventType := some tail.event.type
      lastEventAt := some tail.event.timestamp }

/-- `WorkgraphReadResponse` and `TaskReadResponse`; `id` is `workgraph_id` or `task_id`. -/
structure ReadResponse (π : Type) where
  v : ℤ := 1
  id : String
  vtf : Option π
  vfobs : VfobsPart

/-- The exception that an error of the repository is to an endpoint. -/
def RepositoryError.exception : RepositoryError → PyException
  | .valueError message => .other "ValueError" message
  | .keyError key => .other "KeyError" key
  | .validationError => .other "ValidationError" "Event"
  | .dataError message => .other "DBAPIError" message

/-- The resource that an endpoint is for. -/
inductive ResourceKind
  | workgraph
  | task

namespace ResourceKind

/-- What vtaskforge knows of a resource. -/
def Metadata : ResourceKind → Type
  | workgraph => WorkgraphMetadata
  | task => TaskMetadata

/-- The part of the response that comes from it. -/
def Part : ResourceKind → Type
  | workgraph => VtfWorkgraphPart
  | task => VtfTaskPart

/-- `from_metadata` of that part. -/
def fromMetadata : (kind : ResourceKind) → kind.Metadata → kind.Part
  | workgraph => VtfWorkgraphPart.fromMetadata
  | task => VtfTaskPart.fromMetadata

/-- The detail of the `404`. -/
def notFound : ResourceKind → String
  | workgraph => "workgraph not found"
  | task => "task not found"

variable {ρ : Type} [EventRepository ρ]

/-- `count_by_workgraph` and `count_by_task`. -/
def count : ResourceKind → ρ → String → ℕ
  | workgraph => EventRepository.countByWorkgraph
  | task => EventRepository.countByTask

/-- `find_last_by_workgraph` and `find_last_by_task`. -/
def findLast : ResourceKind → ρ → String → Except RepositoryError (Option StoredEvent)
  | workgraph => EventRepository.findLastByWorkgraph
  | task => EventRepository.findLastByTask

/-- `vtf_meta is None and count == 0`. -/
def checkFound (kind : ResourceKind) (metadata : Option kind.Metadata) (count : ℕ) :
    Except PyException Unit :=
  if metadata.isNone ∧ count = 0 then .error (.http 404 kind.notFound) else .ok ()

/-- The response, from the result of the second query. -/
def respond (kind : ResourceKind) (id : String) (metadata : Option kind.Metadata) (count : ℕ) :
    Except RepositoryError (Option StoredEvent) → Except PyException (ReadResponse kind.Part)
  | .error e => .error e.exception
  | .ok tail => .ok {
      id
      vtf := metadata.map kind.fromMetadata
      vfobs := .build count tail }

/-- An endpoint, from the metadata on; its two queries meet `atCount` and `atTail`. -/
def read (kind : ResourceKind) (id : String) (metadata : Option kind.Metadata)
    (atCount atTail : ρ) : Except PyException (ReadResponse kind.Part) := do
  let count := kind.count atCount id
  kind.checkFound metadata count
  kind.respond id metadata count (kind.findLast atTail id)

/-- The events of a resource. -/
def Owns : ResourceKind → String → Event → Prop
  | workgraph, id, e => e.workgraphId = id
  | task, id, e => e.taskId = some id

instance : (kind : ResourceKind) → (id : String) → DecidablePred (kind.Owns id)
  | workgraph, id => fun e => inferInstanceAs (Decidable (e.workgraphId = id))
  | task, id => fun e => inferInstanceAs (Decidable (e.taskId = some id))

variable {repo : ρ} {log : EventLog}

theorem count_eq (h : Represents repo log) (kind : ResourceKind) (id : String) :
    kind.count repo id = log.count (kind.Owns id) := by
  cases kind with
  | workgraph => exact h.countByWorkgraph id
  | task => exact h.countByTask id

theorem findLast_eq (h : Represents repo log) (kind : ResourceKind) (id : String) :
    kind.findLast repo id = .ok (log.last (kind.Owns id)) := by
  cases kind with
  | workgraph => exact h.findLastByWorkgraph id
  | task => exact h.findLastByTask id

/-- **What an endpoint answers**: a `404` when neither side knows the resource, else the count
of one log and the last event of the other. -/
theorem read_eq {atCount atTail : ρ} {log log' : EventLog} (h : Represents atCount log)
    (h' : Represents atTail log') (kind : ResourceKind) (id : String)
    (metadata : Option kind.Metadata) :
    kind.read id metadata atCount atTail =
      if metadata.isNone ∧ log.count (kind.Owns id) = 0 then .error (.http 404 kind.notFound)
      else .ok {
        id
        vtf := metadata.map kind.fromMetadata
        vfobs := .build (log.count (kind.Owns id)) (log'.last (kind.Owns id)) } := by
  simp only [read, count_eq h, findLast_eq h', checkFound]
  split_ifs <;> rfl

end ResourceKind

/-- `get_workgraph`. -/
def getWorkgraph {ρ : Type} [EventRepository ρ] (workgraphId : String)
    (metadata : Option WorkgraphMetadata) (atCount atTail : ρ) :
    Except PyException (ReadResponse VtfWorkgraphPart) :=
  ResourceKind.read .workgraph workgraphId metadata atCount atTail

/-- `get_task`. -/
def getTask {ρ : Type} [EventRepository ρ] (taskId : String) (metadata : Option TaskMetadata)
    (atCount atTail : ρ) : Except PyException (ReadResponse VtfTaskPart) :=
  ResourceKind.read .task taskId metadata atCount atTail

end Vfobs
