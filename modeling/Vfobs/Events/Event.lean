import Vfobs.Events.Namespaces

/-!
# Events

`Event` is an event of any of the seventeen classes of `AnyEvent`: the envelope that the base
class declares and the typed `data` of the subclass, from which the literal `type` follows.
That the envelope is stripped and its required strings non-empty is part of the type.

`EventData.eventTypeRegistry` is `EVENT_TYPE_REGISTRY`. Dumping an event's data and reading it
back through the class registered under its type gives the data (`lookup_registry_type`).
-/

namespace Vfobs

open JsonCodec

/-- The `data` of an event, by class, in the order of `EVENT_CLASSES`. -/
inductive EventData
  | anomalyStuckDetected (data : AnomalyStuckDetectedData)
  | gateFailed (data : GateFailedData)
  | gatePassed (data : GatePassedData)
  | gateStarted (data : GateStartedData)
  | harnessToolCall (data : HarnessToolCallData)
  | harnessTurnCompleted (data : HarnessTurnCompletedData)
  | harnessTurnStarted (data : HarnessTurnStartedData)
  | judgeDecision (data : JudgeDecisionData)
  | judgeReviewSubmitted (data : JudgeReviewSubmittedData)
  | judgeStarted (data : JudgeStartedData)
  | taskClaimed (data : TaskClaimedData)
  | taskHeartbeat (data : TaskHeartbeatData)
  | taskStateChanged (data : TaskStateChangedData)
  | taskWorkdirChanged (data : TaskWorkdirChangedData)
  | workgraphCompleted (data : WorkgraphCompletedData)
  | workgraphCreated (data : WorkgraphCreatedData)
  | workgraphStateChanged (data : WorkgraphStateChangedData)

namespace EventData

/-- The literal `type` of the class. -/
def type : EventData → String
  | .anomalyStuckDetected _ => "anomaly.stuck_detected"
  | .gateFailed _ => "gate.failed"
  | .gatePassed _ => "gate.passed"
  | .gateStarted _ => "gate.started"
  | .harnessToolCall _ => "harness.tool_call"
  | .harnessTurnCompleted _ => "harness.turn_completed"
  | .harnessTurnStarted _ => "harness.turn_started"
  | .judgeDecision _ => "judge.decision"
  | .judgeReviewSubmitted _ => "judge.review_submitted"
  | .judgeStarted _ => "judge.started"
  | .taskClaimed _ => "task.claimed"
  | .taskHeartbeat _ => "task.heartbeat"
  | .taskStateChanged _ => "task.state_changed"
  | .taskWorkdirChanged _ => "task.workdir_changed"
  | .workgraphCompleted _ => "workgraph.completed"
  | .workgraphCreated _ => "workgraph.created"
  | .workgraphStateChanged _ => "workgraph.state_changed"

/-- `data.model_dump(mode="json")`. -/
def modelDump : EventData → Json
  | .anomalyStuckDetected data => dump data
  | .gateFailed data => dump data
  | .gatePassed data => dump data
  | .gateStarted data => dump data
  | .harnessToolCall data => dump data
  | .harnessTurnCompleted data => dump data
  | .harnessTurnStarted data => dump data
  | .judgeDecision data => dump data
  | .judgeReviewSubmitted data => dump data
  | .judgeStarted data => dump data
  | .taskClaimed data => dump data
  | .taskHeartbeat data => dump data
  | .taskStateChanged data => dump data
  | .taskWorkdirChanged data => dump data
  | .workgraphCompleted data => dump data
  | .workgraphCreated data => dump data
  | .workgraphStateChanged data => dump data

/-- Validate `data` as the sub-model of one class. -/
def validateAs {α : Type} [JsonCodec α] (cls : α → EventData) (j : Json) : Option EventData :=
  (validate j).map cls

/-- `EVENT_TYPE_REGISTRY`: the classes under their types. -/
def eventTypeRegistry : List (String × (Json → Option EventData)) :=
  [("anomaly.stuck_detected", validateAs .anomalyStuckDetected),
   ("gate.failed", validateAs .gateFailed),
   ("gate.passed", validateAs .gatePassed),
   ("gate.started", validateAs .gateStarted),
   ("harness.tool_call", validateAs .harnessToolCall),
   ("harness.turn_completed", validateAs .harnessTurnCompleted),
   ("harness.turn_started", validateAs .harnessTurnStarted),
   ("judge.decision", validateAs .judgeDecision),
   ("judge.review_submitted", validateAs .judgeReviewSubmitted),
   ("judge.started", validateAs .judgeStarted),
   ("task.claimed", validateAs .taskClaimed),
   ("task.heartbeat", validateAs .taskHeartbeat),
   ("task.state_changed", validateAs .taskStateChanged),
   ("task.workdir_changed", validateAs .taskWorkdirChanged),
   ("workgraph.completed", validateAs .workgraphCompleted),
   ("workgraph.created", validateAs .workgraphCreated),
   ("workgraph.state_changed", validateAs .workgraphStateChanged)]

/-- The types of the registry are distinct. -/
theorem nodup_registry : (eventTypeRegistry.map Prod.fst).Nodup := by decide

/-- **The registry reads what the class dumped.** -/
theorem lookup_registry_type (d : EventData) :
    (eventTypeRegistry.lookup d.type).bind (fun cls => cls d.modelDump) = some d := by
  cases d <;> simp [eventTypeRegistry, type, modelDump, validateAs, List.lookup_cons]

/-- Every class passes the namespace check of the base class. -/
theorem typeHasKnownNamespace_type (d : EventData) : typeHasKnownNamespace d.type := by
  have hall : ∀ t ∈ eventTypeRegistry.map Prod.fst, typeHasKnownNamespace t := by decide
  exact hall d.type (by cases d <;> simp [eventTypeRegistry, type])

/-- Every dump has at least one field: no class has an empty `data`. -/
theorem modelDump_ne_empty (d : EventData) : d.modelDump ≠ .obj [] := by
  cases d <;> simp [modelDump, dump]

end EventData

/-- The fields of the base class `Event`, `type` apart. -/
structure Envelope where
  v : ℤ
  workgraphId : String
  taskId : Option String
  agentId : Option String
  traceId : Option String
  source : String
  timestamp : IsoDatetime
  classification : Classification
  orgId : String
  clusterId : String

namespace Envelope

/-- `str_strip_whitespace`, on every string of the envelope. -/
def strip (e : Envelope) : Envelope :=
  { e with
    workgraphId := Vfobs.strip e.workgraphId
    taskId := e.taskId.map Vfobs.strip
    agentId := e.agentId.map Vfobs.strip
    traceId := e.traceId.map Vfobs.strip
    source := Vfobs.strip e.source
    orgId := Vfobs.strip e.orgId
    clusterId := Vfobs.strip e.clusterId }

theorem strip_strip (e : Envelope) : e.strip.strip = e.strip := by
  have hstrip : ∀ s, Vfobs.strip (Vfobs.strip s) = Vfobs.strip s := stripped_strip
  have hcomp : Vfobs.strip ∘ Vfobs.strip = Vfobs.strip := funext hstrip
  simp only [strip, hstrip, Option.map_map, hcomp]

/-- What the validation of the base class has made sure of: the strings are stripped, and
the two with `min_length=1` are not empty. -/
def Valid (e : Envelope) : Prop := e.strip = e ∧ e.workgraphId ≠ "" ∧ e.source ≠ ""

/-- An envelope with the defaults of the base class. -/
def ofDefaults (workgraphId : String) (taskId : Option String) (source : String)
    (timestamp : IsoDatetime) : Envelope where
  v := 1
  workgraphId
  taskId
  agentId := none
  traceId := none
  source
  timestamp
  classification := .internal
  orgId := "viloforge"
  clusterId := "vafi-dev"

/-- The defaults pass their own validation. -/
theorem valid_ofDefaults {workgraphId source : String} {taskId : Option String}
    {timestamp : IsoDatetime} (hw : Stripped workgraphId ∧ workgraphId ≠ "")
    (ht : taskId.map Vfobs.strip = taskId) (hs : Stripped source ∧ source ≠ "") :
    (ofDefaults workgraphId taskId source timestamp).Valid := by
  refine ⟨?_, hw.2, hs.2⟩
  have horg : Stripped "viloforge" := by decide
  have hcluster : Stripped "vafi-dev" := by decide
  rw [Stripped] at hw hs horg hcluster
  simp only [strip, ofDefaults, hw.1, ht, hs.1, horg, hcluster, Option.map_none]

end Envelope

/-- An event of one of the classes of `AnyEvent`. -/
structure Event extends Envelope where
  data : EventData
  valid : toEnvelope.Valid

namespace Event

/-- `event.type`. -/
def type (e : Event) : String := e.data.type

/-- Validate an event from its envelope and its data; `none` is a validation error. -/
def modelValidate (envelope : Envelope) (data : EventData) : Option Event :=
  if h : envelope.strip.workgraphId ≠ "" ∧ envelope.strip.source ≠ "" then
    some { toEnvelope := envelope.strip, data, valid := ⟨envelope.strip_strip, h⟩ }
  else none

@[simp]
theorem modelValidate_self (e : Event) : modelValidate e.toEnvelope e.data = some e := by
  obtain ⟨env, data, hstrip, hne⟩ := e
  simp only [modelValidate, hstrip]
  rw [dif_pos hne]

/-- An envelope that stays non-empty where it must makes an event, and the event has it,
stripped. -/
theorem exists_modelValidate (envelope : Envelope) (data : EventData)
    (h : envelope.strip.workgraphId ≠ "" ∧ envelope.strip.source ≠ "") :
    ∃ e, modelValidate envelope data = some e ∧ e.toEnvelope = envelope.strip ∧ e.data = data :=
  ⟨_, dif_pos h, rfl, rfl⟩

/-- The fields that the base class declares, dumped. -/
def baseFields (e : Event) : List (String × Json) :=
  [("v", dump e.v), ("type", dump e.type), ("workgraph_id", dump e.workgraphId),
    ("task_id", dumpOption e.taskId), ("agent_id", dumpOption e.agentId),
    ("trace_id", dumpOption e.traceId), ("source", dump e.source),
    ("timestamp", dump e.timestamp), ("classification", dump e.classification.value),
    ("org_id", dump e.orgId), ("cluster_id", dump e.clusterId)]

/-- `event.model_dump(mode="json")`: the fields of the event's own class. -/
def modelDump (e : Event) : Json := .obj (e.baseFields ++ [("data", e.data.modelDump)])

/-- The dump of an event where the field is annotated with the base class: pydantic writes
the fields of the annotated class and leaves out what the subclass adds. -/
def modelDumpAsBase (e : Event) : Json := .obj e.baseFields

end Event

/-- An event that the executor of a task `t` of a workgraph `wg` reports. -/
def runEvent (timestamp : IsoDatetime) (data : EventData) : Event where
  toEnvelope := .ofDefaults "wg" (some "t") "executor" timestamp
  data
  valid := Envelope.valid_ofDefaults (by decide) (by decide) (by decide)

end Vfobs
