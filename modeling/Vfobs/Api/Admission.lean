import Vfobs.Api.Reads
import Vfobs.Repositories.PartitionRouting

/-!
# What the API admits and what the table holds

A `ValidRequest` is a request that the API's own validation has let through. Its statements
bind values, each for a column or for a parameter of the type that the parameter is compared
with, and the request is `InDomain` when these are in the domains.

The models take integers of any size, texts with any characters and floats that are not
finite; a `smallint`, a `bigint`, a `text` and a `jsonb` do not. `Fits` is what has to be asked
of a request besides its validation, and `inDomain_iff_fits` says that it is exactly this: the
columns that must not be null, the literals of the types, the classifications and what the
dumps add to the data are in their domains for every event.
-/

namespace Vfobs

open JsonCodec

/-! ### The texts of an event -/

/-- The texts that a client gives for the data of an event. -/
def EventData.texts : EventData → List String
  | .anomalyStuckDetected data => data.lastSeenEventType.toList
  | .gateFailed data => data.gateName :: data.stderrTail.toList
  | .gatePassed data => [data.gateName]
  | .gateStarted data => [data.gateName, data.command]
  | .harnessToolCall data => data.toolName :: data.toolArgsSummary.toList
  | .harnessTurnCompleted _ => []
  | .harnessTurnStarted data => [data.model]
  | .judgeDecision data => data.notes.toList
  | .judgeReviewSubmitted data => data.perAcVerdicts.1.flatMap fun p => [p.1, p.2]
  | .judgeStarted data => [data.judgeAgentId]
  | .taskClaimed data => [data.claimedByAgentId]
  | .taskHeartbeat _ => []
  | .taskStateChanged data => [data.fromStatus, data.toStatus]
  | .taskWorkdirChanged data => data.branch.toList
  | .workgraphCompleted data => [data.terminalStatus]
  | .workgraphCreated data => data.createdBy :: data.kind :: data.targetRepos
  | .workgraphStateChanged data => [data.fromStatus, data.toStatus]

/-- The texts of an envelope. -/
def Envelope.texts (e : Envelope) : List String :=
  e.workgraphId :: e.source :: e.orgId :: e.clusterId ::
    (e.taskId.toList ++ e.agentId.toList ++ e.traceId.toList)

/-- The texts of a query. -/
def EventQuery.texts (q : EventQuery) : List String :=
  q.orgId :: (q.workgraphId.toList ++ q.taskId.toList ++ q.agentId.toList ++ q.type.toList ++
    q.typeNamespace.toList)

/-- **The dump of an event's data is a `jsonb` when the texts given for it are `text`**: the
keys of the fields and the texts of datetimes always are. -/
theorem EventData.inJsonb_modelDump_iff (d : EventData) :
    Sql.InJsonb d.modelDump ↔ ∀ s ∈ d.texts, Sql.InText s := by
  have hdecision : ∀ d : Decision, Sql.InText d.value := by
    intro d
    cases d <;> decide
  cases d <;> simp +decide [modelDump, dump, texts, hdecision]

/-! ### Requests -/

/-- The floats that are not finite; `json.dumps` writes them as `NaN`, `Infinity` and
`-Infinity`, which is not JSON. -/
inductive NonFinite
  | nan
  | infinity
  | negInfinity

/-- A body of `POST /events` that was validated. A cost that is not finite is held beside the
event, which has `0` in its place. -/
structure AcceptedBody where
  event : Event
  nonFiniteCost : Option NonFinite
  valid : ∀ cost ∈ nonFiniteCost, ∃ data summary, event.data = .taskStateChanged data ∧
    data.executionSummary = some summary ∧ summary.costUsd = some 0

/-- What the text of the data in the row of a body is read as. -/
def AcceptedBody.dataRead (body : AcceptedBody) : Option Json :=
  match body.nonFiniteCost with
  | none => some (eventToRow body.event).data
  | some _ => none

/-- A parameter of a query, with the type of what it is compared with. -/
abbrev QueryParam := Sql.ColumnType × Sql.Value

namespace PostgresEventRepository

/-- The parameters that `_cursor` adds. -/
def cursorParams (fromId : Option ℤ) : List QueryParam :=
  fromId.toList.map fun f => (.bigint, .int f)

/-- The parameter of a comparison with a text, if there is one. -/
def textParams (value : Option String) : List QueryParam :=
  value.toList.map fun s => (.text, .text s)

/-- The parameter of `LIMIT`. -/
def limitParam (limit : ℤ) : QueryParam := (.bigint, .int (clampLimit limit))

/-- The parameters of `find_by_task`. -/
def findByTaskParams (taskId : String) (fromId : Option ℤ) (limit : ℤ) : List QueryParam :=
  textParams taskId ++ limitParam limit :: cursorParams fromId

/-- The parameters of `find_filtered`. -/
def findFilteredParams (f : EventFilter) (fromId : Option ℤ) (limit : ℤ) : List QueryParam :=
  limitParam limit :: (textParams f.workgraphId ++ textParams f.taskId ++ textParams f.agentId ++
    textParams f.orgId ++ textParams f.type ++ textParams f.typeNamespace ++ cursorParams fromId)

end PostgresEventRepository

open PostgresEventRepository

/-- A request that the API has validated. The endpoints for one workgraph, task or agent
other than `get_task_events` bind the id of their path alone. -/
inductive ValidRequest
  | postEvents (body : AcceptedBody)
  | listEvents (q : EventQuery)
  | getTaskEvents (taskId : String) (fromId : Option ℤ) (limit : ℤ)
  | resource (id : String)

namespace ValidRequest

/-- Every value that the request binds is in the domain of what it is bound to, and the row of
a body meets the `CHECK`s. -/
def InDomain : ValidRequest → Prop
  | postEvents body => (eventToRow body.event).AdmittedWith body.dataRead
  | listEvents q => ∀ p ∈ findFilteredParams q.filter q.fromId q.limit, p.1.Holds p.2
  | getTaskEvents taskId fromId limit =>
    ∀ p ∈ findByTaskParams taskId fromId limit, p.1.Holds p.2
  | resource id => ∀ p ∈ textParams id, p.1.Holds p.2

/-- The condition on the values that a client gives. -/
def Fits : ValidRequest → Prop
  | postEvents body => Sql.InSmallint body.event.v ∧
      (∀ s ∈ body.event.texts ++ body.event.data.texts, Sql.InText s) ∧
        body.nonFiniteCost.isNone
  | listEvents q => (∀ s ∈ q.texts, Sql.InText s) ∧ ∀ c ∈ q.fromId, c < 2 ^ 63
  | getTaskEvents taskId fromId _ => Sql.InText taskId ∧ ∀ c ∈ fromId, Sql.InBigint c
  | resource id => Sql.InText id

end ValidRequest

/-! ### Rows -/

/-- The values of an optional field are in the domain of a nullable `text`. -/
theorem holds_nullable_iff {name : String} {value : Option String} :
    (⟨name, .text, true⟩ : Sql.Column).Holds (RowValues.values.nullable value) ↔
      ∀ s ∈ value, Sql.InText s := by
  cases value <;>
    simp [RowValues.values.nullable, Sql.Column.Holds, Sql.ColumnType.Holds, Sql.Value.isNull]

/-- The type of every class meets the `CHECK` of the namespace and is a `text`. -/
theorem eventsTypeNamespaceChk_type (d : EventData) :
    eventsTypeNamespaceChk d.type ∧ Sql.InText d.type := by
  have hall : ∀ t ∈ EventData.eventTypeRegistry.map Prod.fst,
      eventsTypeNamespaceChk t ∧ Sql.InText t := by decide
  exact hall d.type (by cases d <;> simp [EventData.eventTypeRegistry, EventData.type])

/-- So does every classification. -/
theorem eventsClassificationChk_value (c : Classification) :
    eventsClassificationChk c.value ∧ Sql.InText c.value := by
  cases c <;> decide

/-- **When the table admits the row of an event**: the columns that must not be null, the two
`CHECK`s and the timestamp ask for nothing. -/
theorem admittedWith_eventToRow_iff (event : Event) (data : Option Json) :
    (eventToRow event).AdmittedWith data ↔ Sql.InSmallint event.v ∧
      (∀ s ∈ event.texts, Sql.InText s) ∧ ∃ j ∈ data, Sql.InJsonb j := by
  obtain ⟨htypeChk, htype⟩ := eventsTypeNamespaceChk_type event.data
  obtain ⟨hclassChk, hclass⟩ := eventsClassificationChk_value event.classification
  have hchecks : eventsTypeNamespaceChk (eventToRow event).type ∧
      eventsClassificationChk (eventToRow event).classification := ⟨htypeChk, hclassChk⟩
  rw [RowValues.AdmittedWith, and_iff_left hchecks]
  simp only [eventsColumns, RowValues.values, List.zip_cons_cons, List.zip_nil_right,
    List.forall_mem_cons, holds_nullable_iff]
  simp only [eventToRow, Event.type, Sql.Column.Holds, Sql.ColumnType.Holds, Sql.Value.isNull,
    htype, hclass, Envelope.texts, List.forall_mem_cons, List.forall_mem_append,
    Option.mem_toList, Bool.false_eq_true, reduceCtorEq, false_and, and_self, true_and, and_true,
    false_or, or_false, or_true, List.not_mem_nil, IsEmpty.forall_iff, implies_true]
  tauto

/-- A routable event is stored when its version is a `smallint` and its texts are `text`, and
only then. -/
theorem exists_store_ok_iff {repo : PostgresEventRepository} {event : Event}
    (hroute : repo.Routable (eventToRow event)) :
    (∃ id, (repo.store event).1 = .ok id) ↔ Sql.InSmallint event.v ∧
      ∀ s ∈ event.texts ++ event.data.texts, Sql.InText s := by
  have hadmitted : (eventToRow event).Admitted ↔ Sql.InSmallint event.v ∧
      ∀ s ∈ event.texts ++ event.data.texts, Sql.InText s := by
    rw [RowValues.Admitted, admittedWith_eventToRow_iff, List.forall_mem_append,
      ← event.data.inJsonb_modelDump_iff]
    simp [eventToRow]
  rw [← hadmitted, store]
  split_ifs with hrow
  · exact iff_of_true ⟨_, rfl⟩ hrow
  · exact iff_of_false (by simp) hrow

/-! ### Requests and their values -/

theorem forall_textParams_iff {value : Option String} :
    (∀ p ∈ textParams value, p.1.Holds p.2) ↔ ∀ s ∈ value, Sql.InText s := by
  simp [textParams, Sql.ColumnType.Holds]

theorem forall_cursorParams_iff {fromId : Option ℤ} :
    (∀ p ∈ cursorParams fromId, p.1.Holds p.2) ↔ ∀ c ∈ fromId, Sql.InBigint c := by
  simp [cursorParams, Sql.ColumnType.Holds]

/-- A clamped limit is a `bigint`. -/
theorem holds_limitParam (limit : ℤ) : (limitParam limit).1.Holds (limitParam limit).2 := by
  have hclamp : Sql.InBigint (clampLimit limit) := by
    rw [Sql.InBigint, clampLimit, maxLimit]
    omega
  exact .inr ⟨rfl, hclamp⟩

namespace ValidRequest

theorem inDomain_postEvents_iff (body : AcceptedBody) :
    (postEvents body).InDomain ↔ (postEvents body).Fits := by
  rw [InDomain, admittedWith_eventToRow_iff, Fits, List.forall_mem_append, and_assoc]
  cases hcost : body.nonFiniteCost with
  | none => simp [AcceptedBody.dataRead, hcost, eventToRow, EventData.inJsonb_modelDump_iff]
  | some cost => simp [AcceptedBody.dataRead, hcost]

theorem inDomain_listEvents_iff (q : EventQuery) :
    (listEvents q).InDomain ↔ (listEvents q).Fits := by
  have hcursor : (∀ c ∈ q.fromId, Sql.InBigint c) ↔ ∀ c ∈ q.fromId, c < 2 ^ 63 := by
    refine forall₂_congr fun c hc => ?_
    have hnonneg := q.fromId_nonneg c hc
    rw [Sql.InBigint]
    omega
  simp only [InDomain, Fits, findFilteredParams, EventQuery.filter, EventQuery.texts,
    List.forall_mem_cons, List.forall_mem_append, forall_textParams_iff, forall_cursorParams_iff,
    holds_limitParam, hcursor, Option.mem_toList, Option.mem_some_iff, forall_eq']
  tauto

/-- **Which admitted requests the database holds the values of**: those whose version is a
`smallint`, whose texts have no NUL, whose cost is finite and whose cursor is a `bigint`. -/
theorem inDomain_iff_fits (r : ValidRequest) : r.InDomain ↔ r.Fits := by
  cases r with
  | postEvents body => exact inDomain_postEvents_iff body
  | listEvents q => exact inDomain_listEvents_iff q
  | getTaskEvents taskId fromId limit =>
    simp only [InDomain, Fits, findByTaskParams, List.forall_mem_append, List.forall_mem_cons,
      forall_textParams_iff, forall_cursorParams_iff, holds_limitParam, true_and,
      Option.mem_some_iff, forall_eq']
  | resource id =>
    simp only [InDomain, Fits, forall_textParams_iff, Option.mem_some_iff, forall_eq']

end ValidRequest

/-- The models take an event of version 40000 that a partition is there for, and a listing
from 2^63 on; the table holds neither number. -/
theorem admits_out_of_domain :
    (∃ event db, Event.modelValidate { Envelope.ofDefaults "wg" (some "t") "executor"
        (isoMidnight migrationDay) with v := 40000 } (.taskClaimed ⟨"a"⟩) = some event ∧
      migrate migrationDay = some db ∧ db.Routable (eventToRow event) ∧
        ¬ (ValidRequest.postEvents ⟨event, none, nofun⟩).InDomain) ∧
    ∃ q, EventQuery.modelValidate { fromId := some (2 ^ 63) } = some q ∧
      ¬ (ValidRequest.listEvents q).InDomain := by
  constructor
  · obtain ⟨event, hevent, henvelope, -⟩ := Event.exists_modelValidate
      { Envelope.ofDefaults "wg" (some "t") "executor" (isoMidnight migrationDay) with v := 40000 }
      (.taskClaimed ⟨"a"⟩) (by decide)
    obtain ⟨db, hdb⟩ : ∃ db, migrate migrationDay = some db :=
      Option.isSome_iff_exists.mp (by decide)
    refine ⟨event, db, hevent, hdb, (routable_migrate_iff hdb [] _).mpr ?_, ?_⟩
    · have htime : (eventToRow event).timestamp = isoMidnight migrationDay :=
        congrArg Envelope.timestamp henvelope
      rw [htime]
      decide
    · have hv : event.v = 40000 := congrArg Envelope.v henvelope
      rw [ValidRequest.inDomain_postEvents_iff, ValidRequest.Fits, hv]
      exact fun hfits => absurd hfits.1 (by decide)
  · refine ⟨_, dif_pos ⟨by simp, by decide⟩, ?_⟩
    rw [ValidRequest.inDomain_listEvents_iff]
    rintro ⟨-, hcursor⟩
    exact absurd (hcursor (2 ^ 63) rfl) (lt_irrefl _)

end Vfobs
