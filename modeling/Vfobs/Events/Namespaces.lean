import Vfobs.Events.Base

/-!
# The `data` sub-models

One structure for each `data` model of `events/namespaces/`, with the fields of the source
and the codec that pydantic derives from them: every field is dumped, in order, `None` as
`null`; a field without a default must be there, one with default `None` may be missing or
`null`. The rows and bodies these are read from were written by a dump, so the codecs take
JSON in the form a dump has and none of the coercions of pydantic's lax mode.
-/

namespace Vfobs

open JsonCodec

/-! ### Workgraph -/

/-- `WorkgraphCreatedData`. -/
structure WorkgraphCreatedData where
  createdBy : String
  kind : String
  targetRepos : List String

instance : JsonCodec WorkgraphCreatedData := ofFields
  (fun d => [("created_by", dump d.createdBy), ("kind", dump d.kind),
    ("target_repos", dump d.targetRepos)])
  (fun fs => do
    let createdBy ← required fs "created_by"
    let kind ← required fs "kind"
    let targetRepos ← required fs "target_repos"
    some ⟨createdBy, kind, targetRepos⟩)
  (fun d => by simp)

/-- `WorkgraphStateChangedData`. -/
structure WorkgraphStateChangedData where
  fromStatus : String
  toStatus : String

instance : JsonCodec WorkgraphStateChangedData := ofFields
  (fun d => [("from_status", dump d.fromStatus), ("to_status", dump d.toStatus)])
  (fun fs => do
    let fromStatus ← required fs "from_status"
    let toStatus ← required fs "to_status"
    some ⟨fromStatus, toStatus⟩)
  (fun d => by simp)

/-- `WorkgraphCompletedData`. -/
structure WorkgraphCompletedData where
  terminalStatus : String
  taskCount : ℤ

instance : JsonCodec WorkgraphCompletedData := ofFields
  (fun d => [("terminal_status", dump d.terminalStatus), ("task_count", dump d.taskCount)])
  (fun fs => do
    let terminalStatus ← required fs "terminal_status"
    let taskCount ← required fs "task_count"
    some ⟨terminalStatus, taskCount⟩)
  (fun d => by simp)

/-! ### Task -/

/-- `ExecutionSummary`. -/
structure ExecutionSummary where
  numTurns : Option ℤ
  totalTokens : Option ℤ
  costUsd : Option ℚ

instance : JsonCodec ExecutionSummary := ofFields
  (fun d => [("num_turns", dumpOption d.numTurns), ("total_tokens", dumpOption d.totalTokens),
    ("cost_usd", dumpOption d.costUsd)])
  (fun fs => do
    let numTurns ← nullable fs "num_turns"
    let totalTokens ← nullable fs "total_tokens"
    let costUsd ← nullable fs "cost_usd"
    some ⟨numTurns, totalTokens, costUsd⟩)
  (fun d => by simp)

/-- `TaskClaimedData`. -/
structure TaskClaimedData where
  claimedByAgentId : String

instance : JsonCodec TaskClaimedData := ofFields
  (fun d => [("claimed_by_agent_id", dump d.claimedByAgentId)])
  (fun fs => do
    let claimedByAgentId ← required fs "claimed_by_agent_id"
    some ⟨claimedByAgentId⟩)
  (fun d => by simp)

/-- `TaskStateChangedData`. -/
structure TaskStateChangedData where
  fromStatus : String
  toStatus : String
  executionSummary : Option ExecutionSummary

instance : JsonCodec TaskStateChangedData := ofFields
  (fun d => [("from_status", dump d.fromStatus), ("to_status", dump d.toStatus),
    ("execution_summary", dumpOption d.executionSummary)])
  (fun fs => do
    let fromStatus ← required fs "from_status"
    let toStatus ← required fs "to_status"
    let executionSummary ← nullable fs "execution_summary"
    some ⟨fromStatus, toStatus, executionSummary⟩)
  (fun d => by simp)

/-- `TaskHeartbeatData`. -/
structure TaskHeartbeatData where
  atTime : IsoDatetime
  currentTurn : Option ℤ

instance : JsonCodec TaskHeartbeatData := ofFields
  (fun d => [("at", dump d.atTime), ("current_turn", dumpOption d.currentTurn)])
  (fun fs => do
    let atTime ← required fs "at"
    let currentTurn ← nullable fs "current_turn"
    some ⟨atTime, currentTurn⟩)
  (fun d => by simp)

/-- `TaskWorkdirChangedData`. -/
structure TaskWorkdirChangedData where
  filesChanged : ℤ
  commits : ℤ
  branch : Option String

instance : JsonCodec TaskWorkdirChangedData := ofFields
  (fun d => [("files_changed", dump d.filesChanged), ("commits", dump d.commits),
    ("branch", dumpOption d.branch)])
  (fun fs => do
    let filesChanged ← required fs "files_changed"
    let commits ← required fs "commits"
    let branch ← nullable fs "branch"
    some ⟨filesChanged, commits, branch⟩)
  (fun d => by simp)

/-! ### Harness -/

/-- `HarnessTurnStartedData`. -/
structure HarnessTurnStartedData where
  turnNumber : ℤ
  model : String
  promptTokens : Option ℤ

instance : JsonCodec HarnessTurnStartedData := ofFields
  (fun d => [("turn_number", dump d.turnNumber), ("model", dump d.model),
    ("prompt_tokens", dumpOption d.promptTokens)])
  (fun fs => do
    let turnNumber ← required fs "turn_number"
    let model ← required fs "model"
    let promptTokens ← nullable fs "prompt_tokens"
    some ⟨turnNumber, model, promptTokens⟩)
  (fun d => by simp)

/-- `HarnessToolCallData`. -/
structure HarnessToolCallData where
  turnNumber : ℤ
  toolName : String
  toolArgsSummary : Option String

instance : JsonCodec HarnessToolCallData := ofFields
  (fun d => [("turn_number", dump d.turnNumber), ("tool_name", dump d.toolName),
    ("tool_args_summary", dumpOption d.toolArgsSummary)])
  (fun fs => do
    let turnNumber ← required fs "turn_number"
    let toolName ← required fs "tool_name"
    let toolArgsSummary ← nullable fs "tool_args_summary"
    some ⟨turnNumber, toolName, toolArgsSummary⟩)
  (fun d => by simp)

/-- `HarnessTurnCompletedData`. -/
structure HarnessTurnCompletedData where
  turnNumber : ℤ
  completionTokens : Option ℤ
  durationMs : Option ℤ

instance : JsonCodec HarnessTurnCompletedData := ofFields
  (fun d => [("turn_number", dump d.turnNumber),
    ("completion_tokens", dumpOption d.completionTokens), ("duration_ms", dumpOption d.durationMs)])
  (fun fs => do
    let turnNumber ← required fs "turn_number"
    let completionTokens ← nullable fs "completion_tokens"
    let durationMs ← nullable fs "duration_ms"
    some ⟨turnNumber, completionTokens, durationMs⟩)
  (fun d => by simp)

/-! ### Gate -/

/-- `GateStartedData`. -/
structure GateStartedData where
  gateName : String
  command : String

instance : JsonCodec GateStartedData := ofFields
  (fun d => [("gate_name", dump d.gateName), ("command", dump d.command)])
  (fun fs => do
    let gateName ← required fs "gate_name"
    let command ← required fs "command"
    some ⟨gateName, command⟩)
  (fun d => by simp)

/-- `GatePassedData`. -/
structure GatePassedData where
  gateName : String
  durationMs : Option ℤ

instance : JsonCodec GatePassedData := ofFields
  (fun d => [("gate_name", dump d.gateName), ("duration_ms", dumpOption d.durationMs)])
  (fun fs => do
    let gateName ← required fs "gate_name"
    let durationMs ← nullable fs "duration_ms"
    some ⟨gateName, durationMs⟩)
  (fun d => by simp)

/-- `GateFailedData`. -/
structure GateFailedData where
  gateName : String
  exitCode : ℤ
  stderrTail : Option String

instance : JsonCodec GateFailedData := ofFields
  (fun d => [("gate_name", dump d.gateName), ("exit_code", dump d.exitCode),
    ("stderr_tail", dumpOption d.stderrTail)])
  (fun fs => do
    let gateName ← required fs "gate_name"
    let exitCode ← required fs "exit_code"
    let stderrTail ← nullable fs "stderr_tail"
    some ⟨gateName, exitCode, stderrTail⟩)
  (fun d => by simp)

/-! ### Judge -/

/-- `JudgeStartedData`. -/
structure JudgeStartedData where
  judgeAgentId : String

instance : JsonCodec JudgeStartedData := ofFields
  (fun d => [("judge_agent_id", dump d.judgeAgentId)])
  (fun fs => do
    let judgeAgentId ← required fs "judge_agent_id"
    some ⟨judgeAgentId⟩)
  (fun d => by simp)

/-- `JudgeReviewSubmittedData`. -/
structure JudgeReviewSubmittedData where
  perAcVerdicts : StrDict

instance : JsonCodec JudgeReviewSubmittedData := ofFields
  (fun d => [("per_ac_verdicts", dump d.perAcVerdicts)])
  (fun fs => do
    let perAcVerdicts ← required fs "per_ac_verdicts"
    some ⟨perAcVerdicts⟩)
  (fun d => by simp)

/-- The literals of `JudgeDecisionData.decision`. -/
inductive Decision
  | approved
  | changesRequested
  | rejected
  deriving DecidableEq

/-- The text of a decision. -/
def Decision.value : Decision → String
  | .approved => "approved"
  | .changesRequested => "changes_requested"
  | .rejected => "rejected"

instance : JsonCodec Decision where
  dump d := .str d.value
  validate j := j.asStr?.bind fun s =>
    [Decision.approved, .changesRequested, .rejected].find? fun d => d.value = s
  validate_dump d := by cases d <;> rfl
  dump_ne_null _ := nofun

/-- `JudgeDecisionData`. -/
structure JudgeDecisionData where
  decision : Decision
  notes : Option String

instance : JsonCodec JudgeDecisionData := ofFields
  (fun d => [("decision", dump d.decision), ("notes", dumpOption d.notes)])
  (fun fs => do
    let decision ← required fs "decision"
    let notes ← nullable fs "notes"
    some ⟨decision, notes⟩)
  (fun d => by simp)

/-! ### Anomaly -/

/-- `AnomalyStuckDetectedData`. -/
structure AnomalyStuckDetectedData where
  lastActivityAt : IsoDatetime
  tMSeconds : ℤ
  lastSeenEventType : Option String

instance : JsonCodec AnomalyStuckDetectedData := ofFields
  (fun d => [("last_activity_at", dump d.lastActivityAt), ("t_m_seconds", dump d.tMSeconds),
    ("last_seen_event_type", dumpOption d.lastSeenEventType)])
  (fun fs => do
    let lastActivityAt ← required fs "last_activity_at"
    let tMSeconds ← required fs "t_m_seconds"
    let lastSeenEventType ← nullable fs "last_seen_event_type"
    some ⟨lastActivityAt, tMSeconds, lastSeenEventType⟩)
  (fun d => by simp)

end Vfobs
