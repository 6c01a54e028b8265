import Vfobs.Events.Event
import Vfobs.Foundations.JsonSchema

/-!
# The locked event schemas

`eventSchemas` is `event_schemas.v1.json`, the output of `dump_event_schemas` that the repository
has committed: one schema for each type of event. What pydantic makes of a class is described with
the class (`Described`), and refers to what it makes of other classes.
-/

namespace Vfobs

open JsonCodec Described Schema

/-! ### `$defs` -/

/-- `Classification`. -/
instance : Described Classification := .ofEnum ["public", "internal", "secret"]
  (fun c => ⟨c.value, by cases c <;> decide, rfl⟩) (by decide)

/-- `WorkgraphCreatedData`. -/
instance : Described WorkgraphCreatedData := .ofFields
  [("created_by", .string), ("kind", .string), ("target_repos", .arrayOf .string)]
  ["created_by", "kind", "target_repos"]
  (fun hD d => HasProperties.accepts_record
    (.cons rfl (accepts_dump hD d.createdBy) <|
      .cons rfl (accepts_dump hD d.kind) <|
      .cons rfl (accepts_dump hD d.targetRepos) .nil) (by decide))
  (.bind .required fun _ => .bind .required fun _ => .bind .required fun _ => .pure _)

/-- `WorkgraphStateChangedData`. -/
instance : Described WorkgraphStateChangedData := .ofFields
  [("from_status", .string), ("to_status", .string)] ["from_status", "to_status"]
  (fun hD d => HasProperties.accepts_record
    (.cons rfl (accepts_dump hD d.fromStatus) <|
      .cons rfl (accepts_dump hD d.toStatus) .nil) (by decide))
  (.bind .required fun _ => .bind .required fun _ => .pure _)

/-- `WorkgraphCompletedData`. -/
instance : Described WorkgraphCompletedData := .ofFields
  [("task_count", .integer), ("terminal_status", .string)] ["terminal_status", "task_count"]
  (fun hD d => HasProperties.accepts_record
    (.cons rfl (accepts_dump hD d.taskCount) <|
      .cons rfl (accepts_dump hD d.terminalStatus) .nil) (by decide))
  (.bind .required fun _ => .bind .required fun _ => .pure _)

/-- `ExecutionSummary`. -/
instance : Described ExecutionSummary := .ofFields
  [("cost_usd", .nullable .number), ("num_turns", .nullable .integer),
   ("total_tokens", .nullable .integer)] []
  (fun hD d => HasProperties.accepts_record
    (.cons rfl (accepts_dumpOption hD d.costUsd) <|
      .cons rfl (accepts_dumpOption hD d.numTurns) <|
      .cons rfl (accepts_dumpOption hD d.totalTokens) .nil) (by decide))
  (.bind .nullable fun _ => .bind .nullable fun _ => .bind .nullable fun _ => .pure _)

/-- `TaskClaimedData`. -/
instance : Described TaskClaimedData := .ofFields
  [("claimed_by_agent_id", .string)] ["claimed_by_agent_id"]
  (fun hD d => HasProperties.accepts_record
    (.cons rfl (accepts_dump hD d.claimedByAgentId) .nil) (by decide))
  (.bind .required fun _ => .pure _)

/-- `TaskStateChangedData`. -/
instance : Described TaskStateChangedData := .ofFields
  [("execution_summary", .nullable (Described.schema ExecutionSummary)), ("from_status", .string),
   ("to_status", .string)] ["from_status", "to_status"]
  (fun hD d => HasProperties.accepts_record
    (.cons rfl (accepts_dumpOption hD d.executionSummary) <|
      .cons rfl (accepts_dump hD d.fromStatus) <|
      .cons rfl (accepts_dump hD d.toStatus) .nil) (by decide))
  (.bind .required fun _ => .bind .required fun _ => .bind .nullable fun _ => .pure _)

/-- `TaskHeartbeatData`. -/
instance : Described TaskHeartbeatData := .ofFields
  [("at", .dateTime), ("current_turn", .nullable .integer)] ["at"]
  (fun hD d => HasProperties.accepts_record
    (.cons rfl (accepts_dump hD d.atTime) <|
      .cons rfl (accepts_dumpOption hD d.currentTurn) .nil) (by decide))
  (.bind .required fun _ => .bind .nullable fun _ => .pure _)

/-- `TaskWorkdirChangedData`. -/
instance : Described TaskWorkdirChangedData := .ofFields
  [("branch", .nullable .string), ("commits", .integer), ("files_changed", .integer)]
  ["files_changed", "commits"]
  (fun hD d => HasProperties.accepts_record
    (.cons rfl (accepts_dumpOption hD d.branch) <|
      .cons rfl (accepts_dump hD d.commits) <|
      .cons rfl (accepts_dump hD d.filesChanged) .nil) (by decide))
  (.bind .required fun _ => .bind .required fun _ => .bind .nullable fun _ => .pure _)

/-- `HarnessTurnStartedData`. -/
instance : Described HarnessTurnStartedData := .ofFields
  [("model", .string), ("prompt_tokens", .nullable .integer), ("turn_number", .integer)]
  ["turn_number", "model"]
  (fun hD d => HasProperties.accepts_record
    (.cons rfl (accepts_dump hD d.model) <|
      .cons rfl (accepts_dumpOption hD d.promptTokens) <|
      .cons rfl (accepts_dump hD d.turnNumber) .nil) (by decide))
  (.bind .required fun _ => .bind .required fun _ => .bind .nullable fun _ => .pure _)

/-- `HarnessToolCallData`. -/
instance : Described HarnessToolCallData := .ofFields
  [("tool_args_summary", .nullable .string), ("tool_name", .string), ("turn_number", .integer)]
  ["turn_number", "tool_name"]
  (fun hD d => HasProperties.accepts_record
    (.cons rfl (accepts_dumpOption hD d.toolArgsSummary) <|
      .cons rfl (accepts_dump hD d.toolName) <|
      .cons rfl (accepts_dump hD d.turnNumber) .nil) (by decide))
  (.bind .required fun _ => .bind .required fun _ => .bind .nullable fun _ => .pure _)

/-- `HarnessTurnCompletedData`. -/
instance : Described HarnessTurnCompletedData := .ofFields
  [("completion_tokens", .nullable .integer), ("duration_ms", .nullable .integer),
   ("turn_number", .integer)] ["turn_number"]
  (fun hD d => HasProperties.accepts_record
    (.cons rfl (accepts_dumpOption hD d.completionTokens) <|
      .cons rfl (accepts_dumpOption hD d.durationMs) <|
      .cons rfl (accepts_dump hD d.turnNumber) .nil) (by decide))
  (.bind .required fun _ => .bind .nullable fun _ => .bind .nullable fun _ => .pure _)

/-- `GateStartedData`. -/
instance : Described GateStartedData := .ofFields
  [("command", .string), ("gate_name", .string)] ["gate_name", "command"]
  (fun hD d => HasProperties.accepts_record
    (.cons rfl (accepts_dump hD d.command) <|
      .cons rfl (accepts_dump hD d.gateName) .nil) (by decide))
  (.bind .required fun _ => .bind .required fun _ => .pure _)

/-- `GatePassedData`. -/
instance : Described GatePassedData := .ofFields
  [("duration_ms", .nullable .integer), ("gate_name", .string)] ["gate_name"]
  (fun hD d => HasProperties.accepts_record
    (.cons rfl (accepts_dumpOption hD d.durationMs) <|
      .cons rfl (accepts_dump hD d.gateName) .nil) (by decide))
  (.bind .required fun _ => .bind .nullable fun _ => .pure _)

/-- `GateFailedData`. -/
instance : Described GateFailedData := .ofFields
  [("exit_code", .integer), ("gate_name", .string), ("stderr_tail", .nullable .string)]
  ["gate_name", "exit_code"]
  (fun hD d => HasProperties.accepts_record
    (.cons rfl (accepts_dump hD d.exitCode) <|
      .cons rfl (accepts_dump hD d.gateName) <|
      .cons rfl (accepts_dumpOption hD d.stderrTail) .nil) (by decide))
  (.bind .required fun _ => .bind .required fun _ => .bind .nullable fun _ => .pure _)

/-- `JudgeStartedData`. -/
instance : Described JudgeStartedData := .ofFields
  [("judge_agent_id", .string)] ["judge_agent_id"]
  (fun hD d => HasProperties.accepts_record
    (.cons rfl (accepts_dump hD d.judgeAgentId) .nil) (by decide))
  (.bind .required fun _ => .pure _)

/-- `JudgeReviewSubmittedData`. -/
instance : Described JudgeReviewSubmittedData := .ofFields
  [("per_ac_verdicts", .dictOf .string)] ["per_ac_verdicts"]
  (fun hD d => HasProperties.accepts_record
    (.cons rfl (accepts_dump hD d.perAcVerdicts) .nil) (by decide))
  (.bind .required fun _ => .pure _)

/-- The literals of a decision. -/
instance : Described Decision := .ofEnum ["approved", "changes_requested", "rejected"]
  (fun d => ⟨d.value, by cases d <;> decide, rfl⟩) (by decide)

/-- `JudgeDecisionData`. -/
instance : Described JudgeDecisionData := .ofFields
  [("decision", Described.schema Decision), ("notes", .nullable .string)]
  ["decision"]
  (fun hD d => HasProperties.accepts_record
    (.cons rfl (accepts_dump hD d.decision) <|
      .cons rfl (accepts_dumpOption hD d.notes) .nil) (by decide))
  (.bind .required fun _ => .bind .nullable fun _ => .pure _)

/-- `AnomalyStuckDetectedData`. -/
instance : Described AnomalyStuckDetectedData := .ofFields
  [("last_activity_at", .dateTime), ("last_seen_event_type", .nullable .string),
   ("t_m_seconds", .integer)] ["last_activity_at", "t_m_seconds"]
  (fun hD d => HasProperties.accepts_record
    (.cons rfl (accepts_dump hD d.lastActivityAt) <|
      .cons rfl (accepts_dumpOption hD d.lastSeenEventType) <|
      .cons rfl (accepts_dump hD d.tMSeconds) .nil) (by decide))
  (.bind .required fun _ => .bind .required fun _ => .bind .nullable fun _ => .pure _)

/-! ### The schemas -/

/-- The properties of the base class, `type` apart. -/
def baseProperties : List (String × Schema) :=
  [("agent_id", .nullable .string), ("classification", schema Classification),
   ("cluster_id", .string), ("org_id", .string), ("source", .nonempty),
   ("task_id", .nullable .string), ("timestamp", .dateTime), ("trace_id", .nullable .string),
   ("v", .integer), ("workgraph_id", .nonempty)]

/-- The schema of a class: the properties of the base class, the literal `type`, and `data`. -/
def eventSchema (type : String) (data : Schema) : Schema :=
  .record (("data", data) :: ("type", .literal type) :: baseProperties)
    ["workgraph_id", "source", "timestamp", "data"]

/-- `dump_event_schemas()`, as the fixture has it. -/
def eventSchemas : List (String × Schema) :=
  [("anomaly.stuck_detected", schema AnomalyStuckDetectedData),
   ("gate.failed", schema GateFailedData),
   ("gate.passed", schema GatePassedData),
   ("gate.started", schema GateStartedData),
   ("harness.tool_call", schema HarnessToolCallData),
   ("harness.turn_completed", schema HarnessTurnCompletedData),
   ("harness.turn_started", schema HarnessTurnStartedData),
   ("judge.decision", schema JudgeDecisionData),
   ("judge.review_submitted", schema JudgeReviewSubmittedData),
   ("judge.started", schema JudgeStartedData),
   ("task.claimed", schema TaskClaimedData),
   ("task.heartbeat", schema TaskHeartbeatData),
   ("task.state_changed", schema TaskStateChangedData),
   ("task.workdir_changed", schema TaskWorkdirChangedData),
   ("workgraph.completed", schema WorkgraphCompletedData),
   ("workgraph.created", schema WorkgraphCreatedData),
   ("workgraph.state_changed", schema WorkgraphStateChangedData)].map
    fun p => (p.1, eventSchema p.1 p.2)

/-! ### What is dumped -/

variable {D : Dialect}

theorem lookup_eventSchemas (hD : D.AdmitsIso) (d : EventData) :
    ∃ data, eventSchemas.lookup d.type = some (eventSchema d.type data) ∧
      data.accepts D d.modelDump = true := by
  cases d <;> exact ⟨_, rfl, accepts_dump hD _⟩

/-- Fields as an event is dumped into are what the schema of its class asks for. -/
theorem accepts_eventSchema (hD : D.AdmitsIso) {v : ℤ}
    {type workgraphId source orgId clusterId : String} {taskId agentId traceId : Option String}
    {timestamp classification data : Json} {dataSchema : Schema}
    (hworkgraph : workgraphId ≠ "") (hsource : source ≠ "")
    (htimestamp : dateTime.accepts D timestamp = true)
    (hclass : (schema Classification).accepts D classification = true)
    (hdata : dataSchema.accepts D data = true) :
    (eventSchema type dataSchema).accepts D (.obj
      [("v", dump v), ("type", dump type), ("workgraph_id", dump workgraphId),
        ("task_id", dumpOption taskId), ("agent_id", dumpOption agentId),
        ("trace_id", dumpOption traceId), ("source", dump source), ("timestamp", timestamp),
        ("classification", classification), ("org_id", dump orgId),
        ("cluster_id", dump clusterId), ("data", data)]) = true := by
  have htype : (literal type).accepts D (dump type) = true := accepts_literal_iff.mpr rfl
  have hnonempty : ∀ s : String, s ≠ "" → nonempty.accepts D (dump s) = true := fun s hs =>
    accepts_nonempty_iff.mpr ⟨s, rfl, hs⟩
  refine HasProperties.accepts_record ?_ (by simp [baseProperties])
  exact .cons rfl hdata <| .cons rfl htype <| .cons rfl (accepts_dumpOption hD agentId) <|
    .cons rfl hclass <| .cons rfl (accepts_dump hD clusterId) <|
    .cons rfl (accepts_dump hD orgId) <| .cons rfl (hnonempty source hsource) <|
    .cons rfl (accepts_dumpOption hD taskId) <| .cons rfl htimestamp <|
    .cons rfl (accepts_dumpOption hD traceId) <| .cons rfl (accepts_dump hD v) <|
    .cons rfl (hnonempty workgraphId hworkgraph) .nil

/-- **What the service dumps satisfies the locked schema of its type.** -/
theorem exists_accepts_modelDump (hD : D.AdmitsIso) (e : Event) :
    ∃ s, eventSchemas.lookup e.type = some s ∧ s.accepts D e.modelDump = true := by
  obtain ⟨data, hlookup, hdata⟩ := lookup_eventSchemas hD e.data
  exact ⟨_, hlookup, accepts_eventSchema hD e.valid.2.1 e.valid.2.2 (accepts_dump hD e.timestamp)
    (accepts_dump hD e.classification) hdata⟩

end Vfobs
