import Vfobs.Api.AnyEvent
import Vfobs.Sdk.Events

/-!
# What the server makes of an event of the SDK

The models of the SDK and of the server are kept in step by hand. `Agrees` says that an event
of the one is an event of the other, field by field, with datetimes compared as instants, and
`received` is the server's event for an event of the SDK.

The server takes what the SDK posts, as `received` (`validate_modelDump`). The two agree on
everything but the timestamp, which JSON writes with an offset of whole minutes: they agree on
that too when its offset has whole minutes (`sdk_payload_received`).
-/

namespace Vfobs.Sdk

open JsonCodec

/-! ### Agreement -/

/-- The same execution summary. -/
def ExecutionSummary.Agrees (s : ExecutionSummary) (s' : Vfobs.ExecutionSummary) : Prop :=
  s.numTurns = s'.numTurns ∧ s.totalTokens = s'.totalTokens ∧ s.costUsd = s'.costUsd

/-- The same data: of the same class, and equal in every field. -/
def EventData.Agrees : EventData → Vfobs.EventData → Prop
  | .taskClaimed d, .taskClaimed d' => d.claimedByAgentId = d'.claimedByAgentId
  | .taskHeartbeat d, .taskHeartbeat d' =>
    d.atTime.instant = d'.atTime.1.instant ∧ d.currentTurn = d'.currentTurn
  | .taskStateChanged d, .taskStateChanged d' => d.fromStatus = d'.fromStatus ∧
      d.toStatus = d'.toStatus ∧
        Option.Rel ExecutionSummary.Agrees d.executionSummary d'.executionSummary
  | .harnessTurnStarted d, .harnessTurnStarted d' => d.turnNumber = d'.turnNumber ∧
      d.model = d'.model ∧ d.promptTokens = d'.promptTokens
  | .harnessTurnCompleted d, .harnessTurnCompleted d' => d.turnNumber = d'.turnNumber ∧
      d.completionTokens = d'.completionTokens ∧ d.durationMs = d'.durationMs
  | .taskWorkdirChanged d, .taskWorkdirChanged d' => d.filesChanged = d'.filesChanged ∧
      d.commits = d'.commits ∧ d.branch = d'.branch
  | _, _ => False

/-- The same event. -/
structure Event.Agrees (e : Event) (e' : Vfobs.Event) : Prop where
  v : e.v = e'.v
  type : e.type = e'.type
  workgraphId : e.workgraphId = e'.workgraphId
  taskId : e.taskId = e'.taskId
  agentId : e.agentId = e'.agentId
  traceId : e.traceId = e'.traceId
  source : e.source = e'.source
  timestamp : e.timestamp.instant = e'.timestamp.1.instant
  classification : e.classification.value = e'.classification.value
  orgId : e.orgId = e'.orgId
  clusterId : e.clusterId = e'.clusterId
  data : e.data.Agrees e'.data

/-! ### What is received -/

/-- The server's classification. -/
def Classification.received : Classification → Vfobs.Classification
  | .pub => .pub
  | .internal => .internal
  | .secret => .secret

/-- The server's execution summary. -/
def ExecutionSummary.received (s : ExecutionSummary) : Vfobs.ExecutionSummary :=
  ⟨s.numTurns, s.totalTokens, s.costUsd⟩

/-- The server's data. -/
def EventData.received : EventData → Vfobs.EventData
  | .taskClaimed d => .taskClaimed ⟨d.claimedByAgentId⟩
  | .taskHeartbeat d => .taskHeartbeat ⟨toIso d.atTime, d.currentTurn⟩
  | .taskStateChanged d => .taskStateChanged
      ⟨d.fromStatus, d.toStatus, d.executionSummary.map ExecutionSummary.received⟩
  | .harnessTurnStarted d => .harnessTurnStarted ⟨d.turnNumber, d.model, d.promptTokens⟩
  | .harnessTurnCompleted d =>
    .harnessTurnCompleted ⟨d.turnNumber, d.completionTokens, d.durationMs⟩
  | .taskWorkdirChanged d => .taskWorkdirChanged ⟨d.filesChanged, d.commits, d.branch⟩

/-- The server's envelope. -/
def Envelope.received (e : Envelope) : Vfobs.Envelope where
  v := e.v
  workgraphId := e.workgraphId
  taskId := e.taskId
  agentId := e.agentId
  traceId := e.traceId
  source := e.source
  timestamp := toIso e.timestamp
  classification := e.classification.received
  orgId := e.orgId
  clusterId := e.clusterId

/-- Both sides strip the same strings. -/
theorem Envelope.strip_received (e : Envelope) : e.received.strip = e.strip.received := rfl

/-- The server's event. -/
def Event.received (e : Event) : Vfobs.Event where
  toEnvelope := e.toEnvelope.received
  data := e.data.received
  valid := ⟨(Envelope.strip_received _).trans (congrArg _ e.stripped), e.nonempty⟩

@[simp]
theorem Classification.value_received (c : Classification) : c.received.value = c.value := by
  cases c <;> rfl

@[simp]
theorem EventData.type_received (d : EventData) : d.received.type = d.type := by
  cases d <;> rfl

/-- The server's summary is dumped as the summary of the SDK. -/
theorem ExecutionSummary.modelDump_eq (o : Option ExecutionSummary) :
    (o.map ExecutionSummary.modelDump).getD .null =
      dumpOption (o.map ExecutionSummary.received) := by
  cases o <;> rfl

/-- The class of the server reads the data. -/
theorem EventData.lookup_anyEventClasses (d : EventData) :
    (anyEventClasses.lookup d.type).bind (fun cls => cls d.modelDump) = some d.received := by
  cases d <;>
    simp [anyEventClasses, type, modelDump, received, List.lookup_cons, EventData.validateAs,
      validate, ExecutionSummary.modelDump_eq]

theorem Event.read_baseFields (e : Event) (data : List (String × Json)) :
    Vfobs.Envelope.read (e.baseFields ++ data) = some e.toEnvelope.received := by
  have hclass : dump e.classification.value = dump e.classification.received := by
    rw [← Classification.value_received]
    rfl
  simp [Vfobs.Envelope.read, baseFields, hclass, Envelope.received]

/-- **The server takes what the SDK posts.** -/
theorem Event.validate_modelDump (e : Event) : AnyEvent.validate e.modelDump = some e.received := by
  obtain ⟨cls, hcls, hdata⟩ := Option.bind_eq_some_iff.mp e.data.lookup_anyEventClasses
  have htype : required (e.baseFields ++ [("data", e.data.modelDump)]) "type" = some e.type := by
    simp [baseFields]
  refine (AnyEvent.validate_obj htype hcls (e.read_baseFields _) ?_).trans
    (Vfobs.Event.modelValidate_self e.received)
  simpa [baseFields, received, List.lookup_cons] using hdata

/-! ### When the two agree -/

/-- The datetimes in the data have offsets of whole minutes. -/
def EventData.MinuteOffset : EventData → Prop
  | .taskHeartbeat d => d.atTime.MinuteOffset
  | _ => True

theorem EventData.agrees_received_iff (d : EventData) : d.Agrees d.received ↔ d.MinuteOffset := by
  cases d with
  | taskHeartbeat d =>
    simp only [Agrees, received, MinuteOffset, toIso, and_true, eq_comm (a := d.atTime.instant),
      Datetime.instant_wholeMinutes_eq_iff]
  | taskStateChanged d =>
    refine iff_of_true ⟨rfl, rfl, ?_⟩ trivial
    cases d.executionSummary with
    | none => exact .none
    | some s => exact .some ⟨rfl, rfl, rfl⟩
  | _ => simp [Agrees, received, MinuteOffset]

/-- The server's event agrees with the one of the SDK unless an offset was cut. -/
theorem Event.agrees_received_iff (e : Event) :
    e.Agrees e.received ↔ e.timestamp.MinuteOffset ∧ e.data.MinuteOffset := by
  have htime : e.timestamp.instant = e.received.timestamp.1.instant ↔
      e.timestamp.MinuteOffset := eq_comm.trans (Datetime.instant_wholeMinutes_eq_iff _)
  rw [← htime, ← EventData.agrees_received_iff]
  constructor
  · exact fun h => ⟨h.timestamp, h.data⟩
  · rintro ⟨htimestamp, hdata⟩
    exact {
      v := rfl
      type := e.data.type_received.symm
      workgraphId := rfl
      taskId := rfl
      agentId := rfl
      traceId := rfl
      source := rfl
      timestamp := htimestamp
      classification := e.classification.value_received.symm
      orgId := rfl
      clusterId := rfl
      data := hdata }

/-- The datetime in the data of a constructed event is its timestamp. -/
theorem Constructed.minuteOffset_data {e : Event} (h : Constructed e)
    (hmin : e.timestamp.MinuteOffset) : e.data.MinuteOffset := by
  cases h with
  | taskHeartbeat h =>
    obtain ⟨htimestamp, hdata⟩ := eq_of_construct h
    rw [htimestamp] at hmin
    rw [hdata]
    exact hmin
  | taskClaimed h | taskStateChanged h | harnessTurnStarted h | harnessTurnCompleted h
  | taskWorkdirChanged h =>
    rw [(eq_of_construct h).2]
    trivial

/-- **What the SDK sends, the server takes in.** The server makes an event of the same type of
the body posted for any event that a constructor returns, and the two agree on every field if
and only if the offset of the timestamp has whole minutes. -/
theorem sdk_payload_received {e : Event} (h : Constructed e) :
    ∃ e', AnyEvent.validate e.modelDump = some e' ∧ e'.type = e.type ∧
      (e.Agrees e' ↔ e.timestamp.MinuteOffset) := by
  refine ⟨e.received, e.validate_modelDump, e.data.type_received, ?_⟩
  rw [e.agrees_received_iff]
  exact ⟨And.left, fun hmin => ⟨hmin, h.minuteOffset_data hmin⟩⟩

/-- The start of the epoch's day, at an offset of `o` seconds. -/
def midnightAt (o : ℤ) (h : o.natAbs < 86400) : Datetime where
  date := .epoch
  hour := 0
  minute := 0
  second := 0
  microsecond := 0
  utcoffset := some o
  valid := by simp [ValidTime, h]

/-- A call at a given time for the task `t` of the workgraph `wg`. -/
def argumentsAt (timestamp : Datetime) : Arguments where
  workgraphId := "wg"
  taskId := some "t"
  source := "sdk"
  timestamp := some timestamp

/-- Such a call returns an event. -/
theorem exists_construct_argumentsAt (clock timestamp : Datetime) (data : Datetime → EventData) :
    ∃ e, construct clock (argumentsAt timestamp) data = some e := by
  have hworkgraph : strip "wg" ≠ "" := by decide
  have hsource : strip "sdk" ≠ "" := by decide
  exact Option.isSome_iff_exists.mp (construct_isSome_iff.mpr ⟨nofun, hworkgraph, hsource⟩)

theorem sdk_payload_received_heartbeat :
    let timestamp := midnightAt 3600 (by decide)
    ∃ e, taskHeartbeat timestamp (argumentsAt timestamp) (some 4) = some e ∧
      ∃ e', AnyEvent.validate e.modelDump = some e' ∧ e'.type = e.type ∧
        (e.Agrees e' ↔ e.timestamp.MinuteOffset) := by
  intro timestamp
  obtain ⟨e, he⟩ := exists_construct_argumentsAt timestamp timestamp
    fun timestamp => .taskHeartbeat ⟨timestamp, some 4⟩
  exact ⟨e, he, sdk_payload_received (.taskHeartbeat he)⟩

/-- A claim at an offset of 30 seconds: the server takes it, at another instant. -/
theorem offset_seconds_lost :
    let timestamp := midnightAt 30 (by decide)
    ∃ e, taskClaimed timestamp (argumentsAt timestamp) "a" = some e ∧
      ∀ e', AnyEvent.validate e.modelDump = some e' → ¬ e.Agrees e' := by
  intro timestamp
  obtain ⟨e, he⟩ := exists_construct_argumentsAt timestamp timestamp
    fun _ => .taskClaimed ⟨"a"⟩
  refine ⟨e, he, fun e' he' hagrees => ?_⟩
  obtain rfl := Option.some.inj (he'.symm.trans e.validate_modelDump)
  have hmin := (e.agrees_received_iff.mp hagrees).1
  rw [(eq_of_construct he).1] at hmin
  exact absurd hmin (by decide)

end Vfobs.Sdk
