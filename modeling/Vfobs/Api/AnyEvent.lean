import Vfobs.Events.Event

/-!
# The body of `POST /events`

`AnyEvent` is the union of the event classes, told apart by the literal of `type`: the class
whose literal it is validates the body. `AnyEvent.validate` reads the fields that every class
inherits and the `data` of that class. It takes what the server itself dumps
(`AnyEvent.validate_modelDump`).
-/

namespace Vfobs

open JsonCodec EventData

/-- The classes of `AnyEvent`, in its order, under their literals. -/
def anyEventClasses : List (String × (Json → Option EventData)) :=
  [("workgraph.created", validateAs .workgraphCreated),
   ("workgraph.state_changed", validateAs .workgraphStateChanged),
   ("workgraph.completed", validateAs .workgraphCompleted),
   ("task.claimed", validateAs .taskClaimed),
   ("task.state_changed", validateAs .taskStateChanged),
   ("task.heartbeat", validateAs .taskHeartbeat),
   ("task.workdir_changed", validateAs .taskWorkdirChanged),
   ("harness.turn_started", validateAs .harnessTurnStarted),
   ("harness.tool_call", validateAs .harnessToolCall),
   ("harness.turn_completed", validateAs .harnessTurnCompleted),
   ("gate.started", validateAs .gateStarted),
   ("gate.passed", validateAs .gatePassed),
   ("gate.failed", validateAs .gateFailed),
   ("judge.started", validateAs .judgeStarted),
   ("judge.review_submitted", validateAs .judgeReviewSubmitted),
   ("judge.decision", validateAs .judgeDecision),
   ("anomaly.stuck_detected", validateAs .anomalyStuckDetected)]

/-- Read the fields of the base class, `type` apart. -/
def Envelope.read (fs : List (String × Json)) : Option Envelope := do
  let v ← defaulted fs "v" 1
  let workgraphId ← required fs "workgraph_id"
  let taskId ← nullable fs "task_id"
  let agentId ← nullable fs "agent_id"
  let traceId ← nullable fs "trace_id"
  let source ← required fs "source"
  let timestamp ← required fs "timestamp"
  let classification ← defaulted fs "classification" .internal
  let orgId ← defaulted fs "org_id" "viloforge"
  let clusterId ← defaulted fs "cluster_id" "vafi-dev"
  some { v, workgraphId, taskId, agentId, traceId, source, timestamp, classification, orgId,
         clusterId }

/-- Validate a body; `none` is a `422`. -/
def AnyEvent.validate : Json → Option Event
  | .obj fs => do
    let type ← required fs "type"
    let cls ← anyEventClasses.lookup type
    let envelope ← Envelope.read fs
    let data ← (fs.lookup "data").bind cls
    Event.modelValidate envelope data
  | _ => none

namespace AnyEvent

/-- What is needed of the fields of a body for an event to be made of them. -/
theorem validate_obj {fs : List (String × Json)} {type : String}
    {cls : Json → Option EventData} {envelope : Envelope} {data : EventData}
    (htype : required fs "type" = some type) (hcls : anyEventClasses.lookup type = some cls)
    (henvelope : Envelope.read fs = some envelope)
    (hdata : (fs.lookup "data").bind cls = some data) :
    validate (.obj fs) = Event.modelValidate envelope data := by
  simp only [validate, htype, hcls, henvelope, hdata, Option.bind_eq_bind, Option.bind_some]

/-- The union has the class of every event. -/
theorem lookup_anyEventClasses (d : EventData) :
    anyEventClasses.lookup d.type = eventTypeRegistry.lookup d.type := by
  cases d <;> simp [anyEventClasses, eventTypeRegistry, EventData.type, List.lookup_cons]

theorem read_baseFields (e : Event) (data : List (String × Json)) :
    Envelope.read (e.baseFields ++ data) = some e.toEnvelope := by
  have hclass : ∀ c : Classification, dump c.value = dump c := fun _ => rfl
  simp [Envelope.read, Event.baseFields, hclass]

/-- **The server takes what it dumps.** -/
theorem validate_modelDump (e : Event) : validate e.modelDump = some e := by
  obtain ⟨cls, hcls, hdata⟩ := Option.bind_eq_some_iff.mp (lookup_registry_type e.data)
  rw [← lookup_anyEventClasses] at hcls
  have htype : required (e.baseFields ++ [("data", e.data.modelDump)]) "type" = some e.type := by
    simp [Event.baseFields]
  refine (validate_obj htype hcls (read_baseFields e _) ?_).trans (Event.modelValidate_self e)
  simpa [Event.baseFields, List.lookup_cons] using hdata

end AnyEvent

end Vfobs
