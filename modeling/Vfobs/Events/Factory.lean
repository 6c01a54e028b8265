import Vfobs.Events.Event

/-!
# The event factory

`EventFactory` has a constructor for each of the seventeen classes, which is how the service means
its events to be made. Each fills in the time where no timestamp is given, makes the `data`, and
hands on the keyword arguments in `**base`.
-/

namespace Vfobs

namespace EventFactory

/-- The keyword arguments in `**base` that the model has fields for; other keys are ignored. -/
structure Base where
  v : Option ℤ := none
  type : Option String := none
  agentId : Option String := none
  traceId : Option String := none
  classification : Option Classification := none
  orgId : Option String := none
  clusterId : Option String := none

/-- The arguments that all constructors have; those of a workgraph have a `task_id` in `**base`. -/
structure Arguments where
  workgraphId : String
  taskId : Option String := none
  source : String
  timestamp : Option IsoDatetime := none
  base : Base := {}

/-- The call of a class at the time `now`. It takes a `type` that is the literal of the class. -/
def construct (now : IsoDatetime) (args : Arguments) (data : EventData) : Option Event :=
  if args.base.type.getD data.type = data.type then
    Event.modelValidate {
      v := args.base.v.getD 1
      workgraphId := args.workgraphId
      taskId := args.taskId
      agentId := args.base.agentId
      traceId := args.base.traceId
      source := args.source
      timestamp := args.timestamp.getD now
      classification := args.base.classification.getD .internal
      orgId := args.base.orgId.getD "viloforge"
      clusterId := args.base.clusterId.getD "vafi-dev" } data
  else none

section constructors

variable (now : IsoDatetime) (args : Arguments)

/-- `workgraph_created`. -/
def workgraphCreated (createdBy kind : String) (targetRepos : List String) : Option Event :=
  construct now args (.workgraphCreated ⟨createdBy, kind, targetRepos⟩)

/-- `workgraph_state_changed`. -/
def workgraphStateChanged (fromStatus toStatus : String) : Option Event :=
  construct now args (.workgraphStateChanged ⟨fromStatus, toStatus⟩)

/-- `workgraph_completed`. -/
def workgraphCompleted (terminalStatus : String) (taskCount : ℤ) : Option Event :=
  construct now args (.workgraphCompleted ⟨terminalStatus, taskCount⟩)

/-- `task_claimed`. -/
def taskClaimed (claimedByAgentId : String) : Option Event :=
  construct now args (.taskClaimed ⟨claimedByAgentId⟩)

/-- `task_state_changed`. -/
def taskStateChanged (fromStatus toStatus : String) (executionSummary : Option ExecutionSummary) :
    Option Event :=
  construct now args (.taskStateChanged ⟨fromStatus, toStatus, executionSummary⟩)

/-- `task_heartbeat`: without an `at` the heartbeat is one of now, whatever its timestamp. -/
def taskHeartbeat (atTime : Option IsoDatetime) (currentTurn : Option ℤ) : Option Event :=
  construct now args (.taskHeartbeat ⟨atTime.getD now, currentTurn⟩)

/-- `task_workdir_changed`. -/
def taskWorkdirChanged (filesChanged commits : ℤ) (branch : Option String) : Option Event :=
  construct now args (.taskWorkdirChanged ⟨filesChanged, commits, branch⟩)

/-- `harness_turn_started`. -/
def harnessTurnStarted (turnNumber : ℤ) (model : String) (promptTokens : Option ℤ) :
    Option Event :=
  construct now args (.harnessTurnStarted ⟨turnNumber, model, promptTokens⟩)

/-- `harness_tool_call`. -/
def harnessToolCall (turnNumber : ℤ) (toolName : String) (toolArgsSummary : Option String) :
    Option Event :=
  construct now args (.harnessToolCall ⟨turnNumber, toolName, toolArgsSummary⟩)

/-- `harness_turn_completed`. -/
def harnessTurnCompleted (turnNumber : ℤ) (completionTokens durationMs : Option ℤ) :
    Option Event :=
  construct now args (.harnessTurnCompleted ⟨turnNumber, completionTokens, durationMs⟩)

/-- `gate_started`. -/
def gateStarted (gateName command : String) : Option Event :=
  construct now args (.gateStarted ⟨gateName, command⟩)

/-- `gate_passed`. -/
def gatePassed (gateName : String) (durationMs : Option ℤ) : Option Event :=
  construct now args (.gatePassed ⟨gateName, durationMs⟩)

/-- `gate_failed`. -/
def gateFailed (gateName : String) (exitCode : ℤ) (stderrTail : Option String) : Option Event :=
  construct now args (.gateFailed ⟨gateName, exitCode, stderrTail⟩)

/-- `judge_started`. -/
def judgeStarted (judgeAgentId : String) : Option Event :=
  construct now args (.judgeStarted ⟨judgeAgentId⟩)

/-- `judge_review_submitted`. -/
def judgeReviewSubmitted (perAcVerdicts : StrDict) : Option Event :=
  construct now args (.judgeReviewSubmitted ⟨perAcVerdicts⟩)

/-- `judge_decision`: any text is taken, and only the literals pass. -/
def judgeDecision (decision : String) (notes : Option String) : Option Event := do
  let decision ← JsonCodec.validate (.str decision)
  construct now args (.judgeDecision ⟨decision, notes⟩)

/-- `anomaly_stuck_detected`. -/
def anomalyStuckDetected (lastActivityAt : IsoDatetime) (tMSeconds : ℤ)
    (lastSeenEventType : Option String) : Option Event :=
  construct now args (.anomalyStuckDetected ⟨lastActivityAt, tMSeconds, lastSeenEventType⟩)

/-- The constructor of a class, with the fields of its data. -/
def ofData : EventData → Option Event
  | .anomalyStuckDetected d =>
    anomalyStuckDetected now args d.lastActivityAt d.tMSeconds d.lastSeenEventType
  | .gateFailed d => gateFailed now args d.gateName d.exitCode d.stderrTail
  | .gatePassed d => gatePassed now args d.gateName d.durationMs
  | .gateStarted d => gateStarted now args d.gateName d.command
  | .harnessToolCall d => harnessToolCall now args d.turnNumber d.toolName d.toolArgsSummary
  | .harnessTurnCompleted d =>
    harnessTurnCompleted now args d.turnNumber d.completionTokens d.durationMs
  | .harnessTurnStarted d => harnessTurnStarted now args d.turnNumber d.model d.promptTokens
  | .judgeDecision d => judgeDecision now args d.decision.value d.notes
  | .judgeReviewSubmitted d => judgeReviewSubmitted now args d.perAcVerdicts
  | .judgeStarted d => judgeStarted now args d.judgeAgentId
  | .taskClaimed d => taskClaimed now args d.claimedByAgentId
  | .taskHeartbeat d => taskHeartbeat now args (some d.atTime) d.currentTurn
  | .taskStateChanged d =>
    taskStateChanged now args d.fromStatus d.toStatus d.executionSummary
  | .taskWorkdirChanged d => taskWorkdirChanged now args d.filesChanged d.commits d.branch
  | .workgraphCompleted d => workgraphCompleted now args d.terminalStatus d.taskCount
  | .workgraphCreated d => workgraphCreated now args d.createdBy d.kind d.targetRepos
  | .workgraphStateChanged d => workgraphStateChanged now args d.fromStatus d.toStatus

variable {now args}

theorem ofData_eq (data : EventData) : ofData now args data = construct now args data := by
  cases data with
  | judgeDecision d =>
    have hdecision : JsonCodec.validate (.str d.decision.value) = some d.decision :=
      JsonCodec.validate_dump d.decision
    rw [ofData, judgeDecision, hdecision]
    rfl
  | _ => rfl

end constructors

/-- The arguments that an event has been made with, or might have been. -/
def argumentsOf (e : Event) : Arguments where
  workgraphId := e.workgraphId
  taskId := e.taskId
  source := e.source
  timestamp := some e.timestamp
  base := {
    v := some e.v
    type := some e.type
    agentId := e.agentId
    traceId := e.traceId
    classification := some e.classification
    orgId := some e.orgId
    clusterId := some e.clusterId }

/-- **Every event can be made by the factory**, at any time. -/
theorem ofData_argumentsOf (now : IsoDatetime) (e : Event) :
    ofData now (argumentsOf e) e.data = some e := by
  have htype : (argumentsOf e).base.type.getD e.data.type = e.data.type := rfl
  rw [ofData_eq, construct, if_pos htype]
  exact e.modelValidate_self

end EventFactory

end Vfobs
