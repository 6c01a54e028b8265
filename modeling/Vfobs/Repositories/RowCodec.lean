import Vfobs.Foundations.JsonReadBack
import Vfobs.Repositories.Postgres

/-!
# The row codec, through a database

`Postgres` has rows that read back as they were written. What the driver returns for a row is
a `FetchedRow`: the texts and the integers are the same, the timestamp is one of the same
instant, and `data` comes as a dictionary or as JSON text, which `rowToEvent` loads first, for
the value that was written (`FetchedRow.ReadsBack`). `loads` stands for `json.loads`.

The models read the data of an event out of all that is read back for it. Only a
dictionary of texts may come back with its keys in another order, so that an event is read
back up to that (`EventData.SameAs`): `row_codec_round_trip`.
-/

namespace Vfobs

open JsonCodec

/-! ### Every model of `data` keeps its results -/

section models

open KeepsReads

instance : KeepsReadBack WorkgraphCreatedData := .ofFields
  (.bind (.required _) fun _ => .bind (.required _) fun _ => .bind (.required _) fun _ => .pure _)

instance : KeepsReadBack WorkgraphStateChangedData := .ofFields
  (.bind (.required _) fun _ => .bind (.required _) fun _ => .pure _)

instance : KeepsReadBack WorkgraphCompletedData := .ofFields
  (.bind (.required _) fun _ => .bind (.required _) fun _ => .pure _)

instance : KeepsReadBack ExecutionSummary := .ofFields
  (.bind (.nullable _) fun _ => .bind (.nullable _) fun _ => .bind (.nullable _) fun _ => .pure _)

instance : KeepsReadBack TaskClaimedData := .ofFields (.bind (.required _) fun _ => .pure _)

instance : KeepsReadBack TaskStateChangedData := .ofFields
  (.bind (.required _) fun _ => .bind (.required _) fun _ => .bind (.nullable _) fun _ => .pure _)

instance : KeepsReadBack TaskHeartbeatData := .ofFields
  (.bind (.required _) fun _ => .bind (.nullable _) fun _ => .pure _)

instance : KeepsReadBack TaskWorkdirChangedData := .ofFields
  (.bind (.required _) fun _ => .bind (.required _) fun _ => .bind (.nullable _) fun _ => .pure _)

instance : KeepsReadBack HarnessTurnStartedData := .ofFields
  (.bind (.required _) fun _ => .bind (.required _) fun _ => .bind (.nullable _) fun _ => .pure _)

instance : KeepsReadBack HarnessToolCallData := .ofFields
  (.bind (.required _) fun _ => .bind (.required _) fun _ => .bind (.nullable _) fun _ => .pure _)

instance : KeepsReadBack HarnessTurnCompletedData := .ofFields
  (.bind (.required _) fun _ => .bind (.nullable _) fun _ => .bind (.nullable _) fun _ => .pure _)

instance : KeepsReadBack GateStartedData := .ofFields
  (.bind (.required _) fun _ => .bind (.required _) fun _ => .pure _)

instance : KeepsReadBack GatePassedData := .ofFields
  (.bind (.required _) fun _ => .bind (.nullable _) fun _ => .pure _)

instance : KeepsReadBack GateFailedData := .ofFields
  (.bind (.required _) fun _ => .bind (.required _) fun _ => .bind (.nullable _) fun _ => .pure _)

instance : KeepsReadBack JudgeStartedData := .ofFields (.bind (.required _) fun _ => .pure _)

instance : KeepsReadBack Decision where
  keeps hback h := by
    cases hback with
    | str => exact h
    | null | bool | int | float | integral | arr | obj => exact nomatch h

instance : KeepsReadBack JudgeDecisionData := .ofFields
  (.bind (.required _) fun _ => .bind (.nullable _) fun _ => .pure _)

instance : KeepsReadBack AnomalyStuckDetectedData := .ofFields
  (.bind (.required _) fun _ => .bind (.required _) fun _ => .bind (.nullable _) fun _ => .pure _)

end models

namespace EventData

/-- The same data; dictionaries are compared as such. -/
def SameAs : EventData → EventData → Prop
  | .judgeReviewSubmitted d, .judgeReviewSubmitted d' => d.perAcVerdicts.SameAs d'.perAcVerdicts
  | d, d' => d = d'

theorem SameAs.type_eq {d d' : EventData} (h : d.SameAs d') : d'.type = d.type := by
  cases d with
  | judgeReviewSubmitted =>
    cases d' with
    | judgeReviewSubmitted => rfl
    | _ => exact congrArg type h.symm
  | _ => exact congrArg type h.symm

theorem validateAs_of_readsBackAs {α : Type} [JsonCodec α] [KeepsReadBack α]
    (cls : α → EventData) {a : α} {j' : Json} (h : (dump a).ReadsBackAs j') :
    validateAs cls j' = some (cls a) := by
  rw [validateAs, KeepsReadBack.keeps h (validate_dump a), Option.map_some]

/-- **The registry reads the data out of what is read back for it.** -/
theorem exists_sameAs_of_readsBackAs (d : EventData) {j' : Json}
    (h : d.modelDump.ReadsBackAs j') :
    ∃ d', (eventTypeRegistry.lookup d.type).bind (fun cls => cls j') = some d' ∧ d.SameAs d' := by
  cases d with
  | judgeReviewSubmitted d =>
    cases h with
    | @obj _ fs' keys values nodup =>
      have hfs : FieldsReadBack [("per_ac_verdicts", dump d.perAcVerdicts)] fs' :=
        ⟨keys, values, nodup⟩
      obtain ⟨v, hv, hback⟩ := hfs.present List.lookup_cons_self
      obtain ⟨verdicts, hverdicts, hsame⟩ := validate_strDict_of_readsBackAs hback
      have hrequired : required fs' "per_ac_verdicts" = some verdicts :=
        Option.bind_eq_some_iff.mpr ⟨v, hv, hverdicts⟩
      refine ⟨.judgeReviewSubmitted ⟨verdicts⟩, ?_, hsame⟩
      show validateAs .judgeReviewSubmitted (.obj fs') = _
      simp [validateAs, validate, hrequired]
  | anomalyStuckDetected | gateFailed | gatePassed | gateStarted | harnessToolCall
  | harnessTurnCompleted | harnessTurnStarted | judgeDecision | judgeStarted | taskClaimed
  | taskHeartbeat | taskStateChanged | taskWorkdirChanged | workgraphCompleted
  | workgraphCreated | workgraphStateChanged =>
    exact ⟨_, validateAs_of_readsBackAs _ h, rfl⟩

end EventData

/-- What the column `data` comes back as. -/
inductive DataColumn
  | dict (fields : List (String × Json))
  | text (t : String)

/-- A row as the driver returns it. -/
structure FetchedRow where
  v : ℤ
  workgraphId : String
  taskId : Option String
  agentId : Option String
  traceId : Option String
  source : String
  type : String
  timestamp : IsoDatetime
  data : DataColumn
  classification : String
  orgId : String
  clusterId : String

namespace FetchedRow

variable (loads : String → Option Json)

/-- `raw_data if isinstance(raw_data, dict) else json.loads(raw_data)`. -/
def loadData (row : FetchedRow) : Except RepositoryError Json :=
  match row.data with
  | .dict fields => .ok (.obj fields)
  | .text t =>
    match loads t with
    | some j => .ok j
    | none => .error (.valueError "JSONDecodeError")

/-- The row with its data loaded. -/
def values (row : FetchedRow) (data : Json) : RowValues := { row with data }

/-- `_row_to_event`. -/
def rowToEvent (row : FetchedRow) : Except RepositoryError Event :=
  if (EventData.eventTypeRegistry.lookup row.type).isNone then .error (.keyError row.type)
  else do
    let data ← row.loadData loads
    Vfobs.rowToEvent (row.values data)

/-- The row is read back for one that was written. -/
structure ReadsBack (row : FetchedRow) (written : RowValues) : Prop where
  /-- A `TIMESTAMPTZ` keeps the instant. -/
  timestamp : row.timestamp.1.instant = written.timestamp.1.instant
  /-- A `JSONB` keeps the value. -/
  data : match row.data with
    | .dict fields => written.data.ReadsBackAs (.obj fields)
    | .text t => ∃ j, loads t = some j ∧ written.data.ReadsBackAs j
  /-- Every other column keeps what was written. -/
  columns : row.values written.data = { written with timestamp := row.timestamp }

variable {loads} {row : FetchedRow}

theorem ReadsBack.exists_loadData {written : RowValues} (h : row.ReadsBack loads written) :
    ∃ j, row.loadData loads = .ok j ∧ written.data.ReadsBackAs j := by
  have hdata := h.data
  rw [loadData]
  cases hrow : row.data with
  | dict fields =>
    rw [hrow] at hdata
    exact ⟨_, rfl, hdata⟩
  | text t =>
    rw [hrow] at hdata
    obtain ⟨j, hj, hback⟩ := hdata
    exact ⟨j, by simp only [hj], hback⟩

end FetchedRow

/-- **The codec round trip.** Whatever row is read back for the row of an event, with its data
as a dictionary or as text: the event that is made of it is of the same class, its timestamp
is of the same instant, and the other fields of the envelope and the data are the same. -/
theorem row_codec_round_trip {loads : String → Option Json} {event : Event} {row : FetchedRow}
    (h : row.ReadsBack loads (eventToRow event)) :
    ∃ event', row.rowToEvent loads = .ok event' ∧ event'.type = event.type ∧
      { event'.toEnvelope with timestamp := event.timestamp } = event.toEnvelope ∧
      event'.timestamp.1.instant = event.timestamp.1.instant ∧ event.data.SameAs event'.data := by
  obtain ⟨j, hload, hback⟩ := h.exists_loadData
  obtain ⟨data, hdata, hsame⟩ := event.data.exists_sameAs_of_readsBackAs hback
  obtain ⟨cls, hcls, hvalidate⟩ := Option.bind_eq_some_iff.mp hdata
  have hstrip : { event.toEnvelope with timestamp := row.timestamp }.strip =
      { event.toEnvelope with timestamp := row.timestamp } := by
    show { event.toEnvelope.strip with timestamp := row.timestamp } = _
    rw [event.valid.1]
  set event' : Event := {
    toEnvelope := { event.toEnvelope with timestamp := row.timestamp }
    data
    valid := ⟨hstrip, event.valid.2⟩ } with hevent'
  refine ⟨event', ?_, hsame.type_eq, rfl, h.timestamp, hsame⟩
  have hvalues : row.values j = { eventToRow event with timestamp := row.timestamp, data := j } :=
    congrArg (fun values : RowValues => { values with data := j }) h.columns
  have htype : row.type = event.data.type := congrArg RowValues.type h.columns
  have hread : rowToEvent (row.values j) = .ok event' := by
    have hevent : Event.modelValidate
        { event.toEnvelope with timestamp := row.timestamp } data = some event' :=
      Event.modelValidate_self event'
    simp only [hvalues, rowToEvent, eventToRow, Event.type, hcls, hvalidate,
      Classification.ofValue?_value, hevent]
  rw [FetchedRow.rowToEvent, htype, hcls, hload]
  exact hread

/-- The text of the data of a claim by the agent `a`. -/
def claimText : String := "\x7b\"claimed_by_agent_id\": \"a\"\x7d"

/-- What is loaded for this text. -/
def loadClaim (t : String) : Option Json :=
  if t = claimText then some (.obj [("claimed_by_agent_id", .str "a")]) else none

/-- A row that comes back as it was written, with its data as a text. -/
def fetchedAsText (row : RowValues) (t : String) : FetchedRow := { row with data := .text t }

theorem row_codec_round_trip_claim :
    let event := runEvent (isoMidnight .epoch) (.taskClaimed ⟨"a"⟩)
    ∃ event', (fetchedAsText (eventToRow event) claimText).rowToEvent loadClaim = .ok event' ∧
      event'.type = event.type ∧
      { event'.toEnvelope with timestamp := event.timestamp } = event.toEnvelope ∧
      event'.timestamp.1.instant = event.timestamp.1.instant ∧
      event.data.SameAs event'.data := by
  refine row_codec_round_trip ⟨rfl, ⟨_, if_pos rfl, ?_⟩, rfl⟩
  refine .obj (fun _ => rfl) (fun key v v' hv hv' => ?_) (by simp)
  obtain rfl := Option.some.inj (hv.symm.trans hv')
  by_cases hkey : key = "claimed_by_agent_id"
  · rw [hkey, List.lookup_cons_self] at hv
    obtain rfl := Option.some.inj hv
    exact .str "a"
  · rw [List.lookup_cons, beq_false_of_ne hkey] at hv
    exact nomatch hv

end Vfobs
