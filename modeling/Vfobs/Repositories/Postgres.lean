import Vfobs.Alembic.InitialSchema
import Vfobs.Foundations.LatestPer
import Vfobs.Foundations.Sql
import Vfobs.Repositories.InMemory
import Mathlib.Data.String.Basic
import Mathlib.Order.WithBot

/-!
# The Postgres repository

A row of `vfobs.events`, the codec between events and rows, and the queries of
`PostgresEventRepository` in the fragment of SQL of `Sql`. Where the source builds a `WHERE`
clause out of the arguments it is given, so does `findFiltered`.

A table holds a collection of stored events when its rows are theirs, in any order
(`Holds`). Every column reads back the value written, so that `rowToEvent` undoes
`eventToRow`, and a table that holds a collection represents its log (`Holds.represents`).
-/

namespace Vfobs

open JsonCodec

/-- The columns that an `INSERT` gives. -/
structure RowValues where
  v : ℤ
  workgraphId : String
  taskId : Option String
  agentId : Option String
  traceId : Option String
  source : String
  type : String
  timestamp : IsoDatetime
  data : Json
  classification : String
  orgId : String
  clusterId : String

/-- A row of `vfobs.events`. -/
structure Row extends RowValues where
  id : ℤ

namespace RowValues

/-- The values that the `INSERT` binds, in the order of the columns; `data` is what the text
of the data is read as. -/
def values (row : RowValues) (data : Option Json) : List Sql.Value :=
  [.int row.v, .text row.workgraphId, nullable row.taskId, nullable row.agentId,
    nullable row.traceId, .text row.source, .text row.type, .timestamp row.timestamp.1, .json data,
    .text row.classification, .text row.orgId, .text row.clusterId]
where
  /-- The value of an optional field. -/
  nullable : Option String → Sql.Value
    | none => .null
    | some s => .text s

/-- The columns hold the values, and the `CHECK`s of the table are met. -/
def AdmittedWith (row : RowValues) (data : Option Json) : Prop :=
  (∀ p ∈ eventsColumns.zip (row.values data), p.1.Holds p.2) ∧
    eventsTypeNamespaceChk row.type ∧ eventsClassificationChk row.classification

instance (row : RowValues) (data : Option Json) : Decidable (row.AdmittedWith data) :=
  inferInstanceAs (Decidable (_ ∧ _))

/-- The table admits the row. -/
def Admitted (row : RowValues) : Prop := row.AdmittedWith (some row.data)

instance (row : RowValues) : Decidable row.Admitted :=
  inferInstanceAs (Decidable (row.AdmittedWith _))

end RowValues

/-- `_event_to_row`. -/
def eventToRow (event : Event) : RowValues where
  v := event.v
  workgraphId := event.workgraphId
  taskId := event.taskId
  agentId := event.agentId
  traceId := event.traceId
  source := event.source
  type := event.type
  timestamp := event.timestamp
  data := event.data.modelDump
  classification := event.classification.value
  orgId := event.orgId
  clusterId := event.clusterId

/-- `_row_to_event`. -/
def rowToEvent (row : RowValues) : Except RepositoryError Event :=
  match EventData.eventTypeRegistry.lookup row.type with
  | none => .error (.keyError row.type)
  | some cls =>
    match cls row.data, Classification.ofValue? row.classification with
    | some data, some classification =>
      let envelope : Envelope := {
        v := row.v
        workgraphId := row.workgraphId
        taskId := row.taskId
        agentId := row.agentId
        traceId := row.traceId
        source := row.source
        timestamp := row.timestamp
        classification
        orgId := row.orgId
        clusterId := row.clusterId }
      match Event.modelValidate envelope data with
      | some event => .ok event
      | none => .error .validationError
    | _, _ => .error .validationError

/-- `_row_to_stored`. -/
def rowToStored (row : Row) : Except RepositoryError StoredEvent :=
  (rowToEvent row.toRowValues).map fun event => ⟨row.id, event⟩

/-- The row of a stored event. -/
def storedToRow (se : StoredEvent) : Row := { toRowValues := eventToRow se.event, id := se.id }

/-- **A row reads back as the event stored in it.** -/
theorem rowToEvent_eventToRow (event : Event) : rowToEvent (eventToRow event) = .ok event := by
  obtain ⟨cls, hcls, hdata⟩ :=
    Option.bind_eq_some_iff.mp (EventData.lookup_registry_type event.data)
  simp only [rowToEvent, eventToRow, Event.type, hcls, hdata, Classification.ofValue?_value]
  rw [Event.modelValidate_self event]

@[simp]
theorem rowToStored_storedToRow (se : StoredEvent) : rowToStored (storedToRow se) = .ok se := by
  rw [rowToStored, storedToRow, rowToEvent_eventToRow]
  rfl

theorem mapM_rowToStored (l : List StoredEvent) :
    (l.map storedToRow).mapM rowToStored = .ok l := by
  induction l with
  | nil => rfl
  | cons se l ih => rw [List.map_cons, List.mapM_cons, rowToStored_storedToRow, ih]; rfl

/-- The database behind a `PostgresEventRepository`: the partitions of `vfobs.events`, its
rows, and the next value of the sequence of its ids. -/
structure PostgresEventRepository where
  partitions : List Partition
  rows : List Row
  nextval : ℤ

namespace PostgresEventRepository

/-- The partition key of a row lies in a partition. -/
def Routable (repo : PostgresEventRepository) (row : RowValues) : Prop :=
  ∃ p ∈ repo.partitions, p.Contains row.timestamp.1.instant

instance (repo : PostgresEventRepository) (row : RowValues) : Decidable (repo.Routable row) :=
  inferInstanceAs (Decidable (∃ p ∈ repo.partitions, _))

/-- `store`. A value out of its column's domain, or a timestamp in no partition, makes the
`INSERT` raise; the sequence does not take back the id it gave. -/
def store (repo : PostgresEventRepository) (event : Event) :
    Except RepositoryError ℤ × PostgresEventRepository :=
  let row := eventToRow event
  if ¬ row.Admitted then (.error (.dataError "value out of range"), repo)
  else if ¬ repo.Routable row then
    (.error (.dataError "no partition of relation found for row"),
      { repo with nextval := repo.nextval + 1 })
  else
    (.ok repo.nextval,
      { repo with
        rows := repo.rows ++ [{ toRowValues := row, id := repo.nextval }]
        nextval := repo.nextval + 1 })

/-- `_fetch`, with the clauses of `where` and the limit. -/
def fetch (repo : PostgresEventRepository) (clauses : List (Sql.Cond Row)) (limit : ℤ) :
    Except RepositoryError (List StoredEvent) :=
  (Sql.selectAsc Row.id (Sql.conj clauses) limit.toNat repo.rows).mapM rowToStored

/-- `_cursor`: the clause of `from_id`, if there is one. -/
def cursor (fromId : Option ℤ) : List (Sql.Cond Row) :=
  match fromId with
  | none => []
  | some f => [Sql.atLeast Row.id f]

/-- The columns that the queries compare with a text. -/
def workgraphColumn (row : Row) : Option String := some row.workgraphId

/-- The column `type`. -/
def typeColumn (row : Row) : Option String := some row.type

/-- The column `org_id`. -/
def orgColumn (row : Row) : Option String := some row.orgId

/-- `split_part(type, '.', 1)`. -/
def namespaceColumn (row : Row) : Option String := some (Sql.splitPartOne row.type '.')

/-- The clause of an optional filter. -/
def filterClause (column : Row → Option String) (value : Option String) : List (Sql.Cond Row) :=
  match value with
  | none => []
  | some v => [Sql.equals column v]

/-- The clauses of `find_filtered`, in the order in which the source appends them. -/
def filterClauses (f : EventFilter) : List (Sql.Cond Row) :=
  (fun _ => some true) :: (filterClause workgraphColumn f.workgraphId ++
    (filterClause (fun r => r.taskId) f.taskId ++ (filterClause (fun r => r.agentId) f.agentId ++
      (filterClause orgColumn f.orgId ++ (filterClause typeColumn f.type ++
        filterClause namespaceColumn f.typeNamespace)))))

/-- `_last`. -/
def findLast (repo : PostgresEventRepository) (column : Row → Option String) (value : String) :
    Except RepositoryError (Option StoredEvent) :=
  match Sql.selectLast Row.id (Sql.equals column value) repo.rows with
  | none => .ok none
  | some row => (rowToStored row).map some

/-- `_count`. -/
def count (repo : PostgresEventRepository) (column : Row → Option String) (value : String) : ℕ :=
  Sql.count (Sql.equals column value) repo.rows

/-- `data->'execution_summary'`. -/
def summaryColumn (row : Row) : Option Json := row.data.get? "execution_summary"

/-- `scope`: the clause of the one scope that is given. -/
def scopeClause (workgraphId agentId : Option String) : Sql.Cond Row :=
  match workgraphId with
  | some w => Sql.equals workgraphColumn w
  | none => Sql.equals (fun r => r.agentId) (agentId.getD "")

/-- The `WHERE` of `latest`, for a scope. -/
def summaryClauses (scope : Sql.Cond Row) : List (Sql.Cond Row) :=
  [Sql.equals typeColumn "task.state_changed",
    Sql.isNotNull fun r => r.taskId,
    fun r => some (summaryColumn r).isSome,
    Sql.isNotNull summaryColumn,
    fun r => (summaryColumn r).map fun j => !j.isNull,
    scope]

/-- The rows of `latest`: `DISTINCT ON (task_id) … ORDER BY task_id, id DESC`. -/
def latestRows (repo : PostgresEventRepository) (scope : Sql.Cond Row) : List Row :=
  LatestPer.distinctOn (fun r => r.taskId)
    (KeyOrder.sort
      (LatestPer.groupThenLatest (fun t => (t : WithTop String)) (fun r => r.taskId) Row.id)
      (Sql.filterWhere (Sql.conj (summaryClauses scope)) repo.rows))

/-- The outer query of `cost_summary` over `es`; `none` when a cast raises. -/
def aggregate (es : List Json) : Option CostSummary := do
  let costs ← es.mapM (Sql.fieldAsNumeric "cost_usd")
  let tokens ← es.mapM (Sql.fieldAsInt "total_tokens")
  let turns ← es.mapM (Sql.fieldAsInt "num_turns")
  some {
    totalCostUsd := Sql.sumNumeric costs
    totalTokens := Sql.sumInt tokens
    totalTurns := Sql.sumInt turns
    taskCount := es.length
    sampleEventCount := es.length }

/-- `cost_summary`. -/
def costSummary (repo : PostgresEventRepository) (workgraphId agentId : Option String) :
    Except RepositoryError CostSummary :=
  if workgraphId.isNone = agentId.isNone then .error (.valueError costScopeMessage)
  else
    let latest := repo.latestRows (scopeClause workgraphId agentId)
    match aggregate (latest.map fun r => (summaryColumn r).getD .null) with
    | some summary => .ok summary
    | none => .error (.dataError "integer out of range")

instance : EventRepository PostgresEventRepository where
  findByWorkgraph repo w fromId limit :=
    repo.fetch (Sql.equals workgraphColumn w :: cursor fromId) (clampLimit limit)
  findByTask repo t fromId limit :=
    repo.fetch (Sql.equals (fun r => r.taskId) t :: cursor fromId) (clampLimit limit)
  findFiltered repo f fromId limit :=
    repo.fetch (filterClauses f ++ cursor fromId) (clampLimit limit)
  findLastByWorkgraph repo w := repo.findLast workgraphColumn w
  findLastByTask repo t := repo.findLast (fun r => r.taskId) t
  countByWorkgraph repo w := repo.count workgraphColumn w
  countByTask repo t := repo.count (fun r => r.taskId) t
  costSummary := costSummary

/-! ### What a table holds -/

/-- The rows of the table are those of `stored`, in some order, and the ids are distinct. -/
structure Holds (repo : PostgresEventRepository) (stored : List StoredEvent) : Prop where
  rows : repo.rows.Perm (stored.map storedToRow)
  nodup : (stored.map StoredEvent.id).Nodup

theorem reaches_iff_cursor {fromId : Option ℤ} {r : Row} :
    (∀ clause ∈ cursor fromId, clause r = some true) ↔ Keyset.Reaches Row.id fromId r := by
  cases fromId <;> simp [cursor, Keyset.Reaches]

theorem filterClause_iff {column : Row → Option String} {value : Option String} {r : Row} :
    (∀ clause ∈ filterClause column value, clause r = some true) ↔
      ∀ v ∈ value, column r = some v := by
  cases value <;> simp [filterClause]

/-- The clauses of `find_filtered` hold of a row when its event matches the filter. -/
theorem filterClauses_iff (f : EventFilter) (se : StoredEvent) :
    (∀ clause ∈ filterClauses f, clause (storedToRow se) = some true) ↔ f.Matches se.event := by
  simp only [filterClauses, List.forall_mem_cons, List.forall_mem_append, filterClause_iff,
    true_and, EventFilter.Matches]
  simp only [workgraphColumn, orgColumn, typeColumn, namespaceColumn, Option.some.injEq]
  rfl

namespace Holds

variable {repo : PostgresEventRepository} {stored : List StoredEvent}
  (h : repo.Holds stored) (p : Event → Prop) [DecidablePred p]

include h

/-- The log of the table. -/
abbrev log : EventLog := EventLog.ofList stored h.nodup

theorem nodup_ids : (repo.rows.map Row.id).Nodup := by
  have hids : (stored.map storedToRow).map Row.id = stored.map StoredEvent.id := by
    rw [List.map_map]
    rfl
  exact ((h.rows.map Row.id).nodup_iff).mpr (hids ▸ h.nodup)

/-- A condition that says `q` of stored events selects the rows of those in the log that
satisfy it. -/
theorem sort_filterWhere {cond : Sql.Cond Row} (q : StoredEvent → Prop) [DecidablePred q]
    (hcond : ∀ se, cond (storedToRow se) = some true ↔ q se) :
    KeyOrder.sort Row.id (Sql.filterWhere cond repo.rows) =
      (h.log.entries.filter fun se => q se).map storedToRow := by
  have hnodup : ((Sql.filterWhere cond repo.rows).map Row.id).Nodup :=
    h.nodup_ids.sublist (List.filter_sublist.map Row.id)
  have hfilter : (Sql.filterWhere cond repo.rows).Perm
      ((stored.filter fun se => q se).map storedToRow) := by
    refine (h.rows.filter _).trans (.of_eq ?_)
    rw [List.filter_map]
    exact congrArg _ (List.filter_congr fun se _ => by simp [hcond])
  rw [KeyOrder.sort_eq_of_perm hnodup hfilter, KeyOrder.sort_map]
  exact congrArg _ (KeyOrder.filter_sort h.nodup _).symm

/-- The rows that a condition on the event selects, in order. -/
theorem sort_filterWhere_event {cond : Sql.Cond Row}
    (hcond : ∀ se, cond (storedToRow se) = some true ↔ p se.event) :
    KeyOrder.sort Row.id (Sql.filterWhere cond repo.rows) =
      (h.log.select p).map storedToRow :=
  h.sort_filterWhere (fun se => p se.event) hcond

theorem fetch_eq_find (clauses : List (Sql.Cond Row)) (fromId : Option ℤ) (limit : ℤ)
    (hclauses : ∀ se,
      (∀ clause ∈ clauses, clause (storedToRow se) = some true) ↔ p se.event) :
    repo.fetch (clauses ++ cursor fromId) (clampLimit limit) =
      .ok (h.log.find p fromId limit) := by
  have hcond : ∀ se, Sql.conj (clauses ++ cursor fromId) (storedToRow se) = some true ↔
      Keyset.Reaches StoredEvent.id fromId se ∧ p se.event := by
    intro se
    rw [Sql.conj_eq_true_iff, List.forall_mem_append, hclauses, reaches_iff_cursor, and_comm]
    cases fromId <;> rfl
  have hrest : Keyset.rest StoredEvent.id fromId (h.log.select p) =
      h.log.entries.filter fun se => Keyset.Reaches StoredEvent.id fromId se ∧ p se.event := by
    simp only [Keyset.rest, EventLog.select, List.filter_filter, Bool.decide_and]
  rw [fetch, Sql.selectAsc, h.sort_filterWhere _ hcond, ← hrest, ← List.map_take,
    mapM_rowToStored]
  rfl

theorem findLast_eq_last {column : Row → Option String} {value : String}
    (hcolumn : ∀ se, column (storedToRow se) = some value ↔ p se.event) :
    repo.findLast column value = .ok (h.log.last p) := by
  have hsort := h.sort_filterWhere_event p fun se =>
    Sql.equals_eq_true_iff.trans (hcolumn se)
  have hnodup : ((Sql.filterWhere (Sql.equals column value) repo.rows).map Row.id).Nodup :=
    h.nodup_ids.sublist (List.filter_sublist.map Row.id)
  rw [findLast, Sql.selectLast, KeyOrder.sort_toDual hnodup, hsort, List.head?_reverse,
    List.getLast?_map, EventLog.last]
  cases (h.log.select p).getLast? with
  | none => rfl
  | some se =>
    simp only [Option.map_some, rowToStored_storedToRow]
    rfl

theorem count_eq_count {column : Row → Option String} {value : String}
    (hcolumn : ∀ se, column (storedToRow se) = some value ↔ p se.event) :
    repo.count column value = h.log.count p := by
  have hsort := h.sort_filterWhere_event p fun se =>
    Sql.equals_eq_true_iff.trans (hcolumn se)
  rw [count, Sql.count, ← KeyOrder.length_sort Row.id, hsort, List.length_map, EventLog.count]

/-- **The Postgres repository answers from the log of what its table holds.** -/
theorem represents : Represents repo h.log where
  findByWorkgraph w fromId limit :=
    h.fetch_eq_find _ [Sql.equals workgraphColumn w] fromId limit fun se => by
      simp [workgraphColumn, storedToRow, eventToRow]
  findByTask t fromId limit :=
    h.fetch_eq_find _ [Sql.equals (fun r => r.taskId) t] fromId limit fun se => by
      simp [storedToRow, eventToRow]
  findFiltered f fromId limit :=
    h.fetch_eq_find f.Matches (filterClauses f) fromId limit (filterClauses_iff f)
  findLastByWorkgraph w := h.findLast_eq_last _ fun se => by
    simp [workgraphColumn, storedToRow, eventToRow]
  findLastByTask t := h.findLast_eq_last _ fun se => Iff.rfl
  countByWorkgraph w := h.count_eq_count _ fun se => by
    simp [workgraphColumn, storedToRow, eventToRow]
  countByTask t := h.count_eq_count _ fun se => Iff.rfl

end Holds

end PostgresEventRepository

/-! ### Liskov equivalence -/

end Vfobs
