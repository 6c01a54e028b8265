import Vfobs.Events.Base

/-!
# The event models of the SDK

The SDK does not import the server's models. It has its own for the six types that it sends:
an envelope, a `data` model for each type, and a constructor for each that fills in the time
and hands on the keyword arguments in `**base`. A timestamp is any `datetime` that a caller
gives, so that its offset need not have whole minutes.

`Constructed` are the events that some call of a constructor returns.
-/

namespace Vfobs.Sdk

open JsonCodec

/-- `_VALID_NAMESPACES`. -/
def validNamespaces : List String := ["workgraph", "task", "harness", "gate", "judge", "anomaly"]

/-- `Classification`. -/
inductive Classification
  | pub
  | internal
  | secret

/-- `Classification.value`. -/
def Classification.value : Classification → String
  | .pub => "public"
  | .internal => "internal"
  | .secret => "secret"

/-! ### Data -/

/-- `_ClaimedData`. -/
structure ClaimedData where
  claimedByAgentId : String

/-- `_HeartbeatData`. -/
structure HeartbeatData where
  atTime : Datetime
  currentTurn : Option ℤ

/-- `ExecutionSummary`. -/
structure ExecutionSummary where
  numTurns : Option ℤ
  totalTokens : Option ℤ
  costUsd : Option ℚ

/-- `_StateChangedData`. -/
structure StateChangedData where
  fromStatus : String
  toStatus : String
  executionSummary : Option ExecutionSummary

/-- `_TurnStartedData`. -/
structure TurnStartedData where
  turnNumber : ℤ
  model : String
  promptTokens : Option ℤ

/-- `_TurnCompletedData`. -/
structure TurnCompletedData where
  turnNumber : ℤ
  completionTokens : Option ℤ
  durationMs : Option ℤ

/-- `_WorkdirChangedData`. -/
structure WorkdirChangedData where
  filesChanged : ℤ
  commits : ℤ
  branch : Option String

/-- The dump of an execution summary. -/
def ExecutionSummary.modelDump (s : ExecutionSummary) : Json :=
  .obj [("num_turns", dumpOption s.numTurns), ("total_tokens", dumpOption s.totalTokens),
    ("cost_usd", dumpOption s.costUsd)]

/-- The `data` of an event, by class. -/
inductive EventData
  | taskClaimed (data : ClaimedData)
  | taskHeartbeat (data : HeartbeatData)
  | taskStateChanged (data : StateChangedData)
  | harnessTurnStarted (data : TurnStartedData)
  | harnessTurnCompleted (data : TurnCompletedData)
  | taskWorkdirChanged (data : WorkdirChangedData)

namespace EventData

/-- The literal `type` of the class. -/
def type : EventData → String
  | taskClaimed _ => "task.claimed"
  | taskHeartbeat _ => "task.heartbeat"
  | taskStateChanged _ => "task.state_changed"
  | harnessTurnStarted _ => "harness.turn_started"
  | harnessTurnCompleted _ => "harness.turn_completed"
  | taskWorkdirChanged _ => "task.workdir_changed"

/-- `data.model_dump(mode="json")`. -/
def modelDump : EventData → Json
  | taskClaimed d => .obj [("claimed_by_agent_id", dump d.claimedByAgentId)]
  | taskHeartbeat d => .obj [("at", .str d.atTime.isoText),
      ("current_turn", dumpOption d.currentTurn)]
  | taskStateChanged d => .obj [("from_status", dump d.fromStatus), ("to_status", dump d.toStatus),
      ("execution_summary", (d.executionSummary.map ExecutionSummary.modelDump).getD .null)]
  | harnessTurnStarted d => .obj [("turn_number", dump d.turnNumber), ("model", dump d.model),
      ("prompt_tokens", dumpOption d.promptTokens)]
  | harnessTurnCompleted d => .obj [("turn_number", dump d.turnNumber),
      ("completion_tokens", dumpOption d.completionTokens),
      ("duration_ms", dumpOption d.durationMs)]
  | taskWorkdirChanged d => .obj [("files_changed", dump d.filesChanged),
      ("commits", dump d.commits), ("branch", dumpOption d.branch)]

/-- Every class passes the namespace check of the base class. -/
theorem namespaceOf_type_mem (d : EventData) : namespaceOf d.type ∈ validNamespaces := by
  have hall : ∀ t ∈ ["task.claimed", "task.heartbeat", "task.state_changed",
      "harness.turn_started", "harness.turn_completed", "task.workdir_changed"],
      namespaceOf t ∈ validNamespaces := by decide
  exact hall d.type (by cases d <;> simp [type])

end EventData

/-! ### Events -/

/-- The fields of the base class `Event`, `type` apart. -/
structure Envelope where
  v : ℤ
  workgraphId : String
  taskId : Option String
  agentId : Option String
  traceId : Option String
  source : String
  timestamp : Datetime
  classification : Classification
  orgId : String
  clusterId : String

/-- `str_strip_whitespace`, on every string of the envelope. -/
def Envelope.strip (e : Envelope) : Envelope :=
  { e with
    workgraphId := Vfobs.strip e.workgraphId
    taskId := e.taskId.map Vfobs.strip
    agentId := e.agentId.map Vfobs.strip
    traceId := e.traceId.map Vfobs.strip
    source := Vfobs.strip e.source
    orgId := Vfobs.strip e.orgId
    clusterId := Vfobs.strip e.clusterId }

theorem Envelope.strip_strip (e : Envelope) : e.strip.strip = e.strip := by
  have hstrip : ∀ s, Vfobs.strip (Vfobs.strip s) = Vfobs.strip s := stripped_strip
  have hcomp : Vfobs.strip ∘ Vfobs.strip = Vfobs.strip := funext hstrip
  simp only [strip, hstrip, Option.map_map, hcomp]

/-- An event of one of the six classes. Its strings are stripped, and the two with
`min_length=1` are not empty. -/
structure Event extends Envelope where
  data : EventData
  stripped : toEnvelope.strip = toEnvelope
  nonempty : workgraphId ≠ "" ∧ source ≠ ""

namespace Event

/-- `event.type`. -/
def type (e : Event) : String := e.data.type

/-- Validate an event from its envelope and its data; `none` is a validation error. -/
def modelValidate (envelope : Envelope) (data : EventData) : Option Event :=
  if h : envelope.strip.workgraphId ≠ "" ∧ envelope.strip.source ≠ "" then
    some { toEnvelope := envelope.strip, data, stripped := envelope.strip_strip, nonempty := h }
  else none

theorem modelValidate_isSome_iff {envelope : Envelope} {data : EventData} :
    (modelValidate envelope data).isSome ↔
      Vfobs.strip envelope.workgraphId ≠ "" ∧ Vfobs.strip envelope.source ≠ "" := by
  rw [modelValidate]
  split_ifs with h
  · exact iff_of_true rfl h
  · exact iff_of_false (by simp) h

/-- The fields that the base class declares, dumped. -/
def baseFields (e : Event) : List (String × Json) :=
  [("v", dump e.v), ("type", dump e.type), ("workgraph_id", dump e.workgraphId),
    ("task_id", dumpOption e.taskId), ("agent_id", dumpOption e.agentId),
    ("trace_id", dumpOption e.traceId), ("source", dump e.source),
    ("timestamp", .str e.timestamp.isoText), ("classification", dump e.classification.value),
    ("org_id", dump e.orgId), ("cluster_id", dump e.clusterId)]

/-- `event.model_dump(mode="json")`: the body that the emitter posts. -/
def modelDump (e : Event) : Json := .obj (e.baseFields ++ [("data", e.data.modelDump)])

end Event

/-! ### Constructors -/

/-- The keyword arguments in `**base` that the model has fields for; it takes a `type` that is
the literal of its class, and ignores other keys. -/
structure Base where
  v : Option ℤ := none
  type : Option String := none
  agentId : Option String := none
  traceId : Option String := none
  classification : Option Classification := none
  orgId : Option String := none
  clusterId : Option String := none

/-- The arguments that all constructors have. -/
structure Arguments where
  workgraphId : String
  taskId : Option String
  source : String
  timestamp : Option Datetime := none
  base : Base := {}

/-- `_now`, at the time `clock`. -/
def now (clock : Datetime) (ts : Option Datetime) : Datetime := ts.getD clock

/-- A constructor at the time `clock`, from the data that it makes, given the timestamp. -/
def construct (clock : Datetime) (args : Arguments) (data : Datetime → EventData) :
    Option Event :=
  let timestamp := now clock args.timestamp
  let data := data timestamp
  if args.base.type.getD data.type = data.type then
    Event.modelValidate {
      v := args.base.v.getD 1
      workgraphId := args.workgraphId
      taskId := args.taskId
      agentId := args.base.agentId
      traceId := args.base.traceId
      source := args.source
      timestamp
      classification := args.base.classification.getD .internal
      orgId := args.base.orgId.getD "viloforge"
      clusterId := args.base.clusterId.getD "vafi-dev" } data
  else none

/-- When a constructor returns: the `type` in `**base` is the literal, and the two names that
must not be empty are more than white space. -/
theorem construct_isSome_iff {clock : Datetime} {args : Arguments} {data : Datetime → EventData} :
    (construct clock args data).isSome ↔
      (∀ type ∈ args.base.type, type = (data (now clock args.timestamp)).type) ∧
        Vfobs.strip args.workgraphId ≠ "" ∧ Vfobs.strip args.source ≠ "" := by
  have htype : args.base.type.getD (data (now clock args.timestamp)).type =
      (data (now clock args.timestamp)).type ↔
        ∀ type ∈ args.base.type, type = (data (now clock args.timestamp)).type := by
    cases args.base.type <;> simp
  simp only [construct, htype]
  split_ifs with h
  · rw [Event.modelValidate_isSome_iff, and_iff_right h]
  · exact iff_of_false (by simp) fun hand => h hand.1

/-- What a constructor returns has the timestamp that was given, or the time. -/
theorem eq_of_construct {clock : Datetime} {args : Arguments} {data : Datetime → EventData}
    {e : Event} (h : construct clock args data = some e) :
    e.timestamp = now clock args.timestamp ∧ e.data = data (now clock args.timestamp) := by
  simp only [construct, Event.modelValidate] at h
  split_ifs at h
  obtain rfl := Option.some.inj h
  exact ⟨rfl, rfl⟩

section constructors

variable (clock : Datetime) (args : Arguments)

/-- `task_claimed`. -/
def taskClaimed (claimedByAgentId : String) : Option Event :=
  construct clock args fun _ => .taskClaimed ⟨claimedByAgentId⟩

/-- `task_heartbeat`. -/
def taskHeartbeat (currentTurn : Option ℤ) : Option Event :=
  construct clock args fun timestamp => .taskHeartbeat ⟨timestamp, currentTurn⟩

/-- `task_state_changed`. -/
def taskStateChanged (fromStatus toStatus : String)
    (executionSummary : Option ExecutionSummary) : Option Event :=
  construct clock args fun _ => .taskStateChanged ⟨fromStatus, toStatus, executionSummary⟩

/-- `harness_turn_started`. -/
def harnessTurnStarted (turnNumber : ℤ) (model : String) (promptTokens : Option ℤ) :
    Option Event :=
  construct clock args fun _ => .harnessTurnStarted ⟨turnNumber, model, promptTokens⟩

/-- `harness_turn_completed`. -/
def harnessTurnCompleted (turnNumber : ℤ) (completionTokens durationMs : Option ℤ) :
    Option Event :=
  construct clock args fun _ => .harnessTurnCompleted ⟨turnNumber, completionTokens, durationMs⟩

/-- `task_workdir_changed`. -/
def taskWorkdirChanged (filesChanged commits : ℤ) (branch : Option String) : Option Event :=
  construct clock args fun _ => .taskWorkdirChanged ⟨filesChanged, commits, branch⟩

end constructors

/-- An event that a constructor can return. -/
inductive Constructed : Event → Prop
  | taskClaimed {clock args claimedByAgentId e}
      (h : taskClaimed clock args claimedByAgentId = some e) : Constructed e
  | taskHeartbeat {clock args currentTurn e}
      (h : taskHeartbeat clock args currentTurn = some e) : Constructed e
  | taskStateChanged {clock args fromStatus toStatus executionSummary e}
      (h : taskStateChanged clock args fromStatus toStatus executionSummary = some e) :
      Constructed e
  | harnessTurnStarted {clock args turnNumber model promptTokens e}
      (h : harnessTurnStarted clock args turnNumber model promptTokens = some e) : Constructed e
  | harnessTurnCompleted {clock args turnNumber completionTokens durationMs e}
      (h : harnessTurnCompleted clock args turnNumber completionTokens durationMs = some e) :
      Constructed e
  | taskWorkdirChanged {clock args filesChanged commits branch e}
      (h : taskWorkdirChanged clock args filesChanged commits branch = some e) : Constructed e

end Vfobs.Sdk
