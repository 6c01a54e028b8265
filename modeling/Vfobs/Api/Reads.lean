import Vfobs.Api.Query

/-!
# The endpoints that list events

`getTaskEvents` is `GET /tasks/<id>/events` over any repository: one page of `find_by_task`,
and the cursor of the next page when this one is as long as the limit, which the endpoint
clamps on its own. `listEvents` is `GET /events`: one page of `find_filtered`, and the cursor
when it is as long as the limit that the query was checked for. On a repository that
represents a log the page and the cursor are those of keyset pagination over the log
(`getTaskEvents_eq`, `listEvents_eq`).

The response is serialized by its declared field types. An item of `events` is a
`StoredEvent`, whose field `event` is annotated with the base class of the events.
-/

namespace Vfobs

open JsonCodec

/-- `_MAX_LIMIT` of the endpoints. -/
def readsMaxLimit : ℤ := 1000

/-- `TaskEventsResponse`. -/
structure TaskEventsResponse where
  v : ℤ := 1
  taskId : String
  events : List StoredEvent
  nextFromId : Option ℤ

/-- A stored event in a response: its fields by their declared types. -/
def StoredEvent.modelDump (se : StoredEvent) : Json :=
  .obj [("id", dump se.id), ("event", se.event.modelDumpAsBase)]

/-- The body of the response. -/
def TaskEventsResponse.modelDump (r : TaskEventsResponse) : Json :=
  .obj [("v", dump r.v), ("task_id", dump r.taskId),
    ("events", .arr (r.events.map StoredEvent.modelDump)),
    ("next_from_id", dumpOption r.nextFromId)]

/-- `get_task_events`. -/
def getTaskEvents {ρ : Type} [EventRepository ρ] (repo : ρ) (taskId : String)
    (fromId : Option ℤ) (limit : ℤ) : Except RepositoryError TaskEventsResponse := do
  let page ← EventRepository.findByTask repo taskId fromId limit
  let requested := max 1 (min limit readsMaxLimit)
  let nextFromId := if page.length = requested ∧ page ≠ [] then
    page.getLast?.map fun se => se.id + 1 else none
  pure { taskId, events := page, nextFromId }

/-- `EventsFilterResponse`. -/
structure EventsFilterResponse where
  v : ℤ := 1
  events : List StoredEvent
  nextFromId : Option ℤ
  filterApplied : List (String × Json)

/-- `list_events`. -/
def listEvents {ρ : Type} [EventRepository ρ] (repo : ρ) (q : EventQuery) :
    Except RepositoryError EventsFilterResponse := do
  let page ← EventRepository.findFiltered repo q.filter q.fromId q.limit
  let nextFromId := if page.length = q.limit ∧ page ≠ [] then
    page.getLast?.map fun se => se.id + 1 else none
  pure { events := page, nextFromId, filterApplied := q.filterApplied }

/-- The events of a task. -/
abbrev EventLog.ofTask (log : EventLog) (taskId : String) : List StoredEvent :=
  log.select fun e => e.taskId = some taskId

/-- The size of a page, for a limit. -/
def pageSize (limit : ℤ) : ℕ := (clampLimit limit).toNat

theorem one_le_pageSize (limit : ℤ) : 1 ≤ pageSize limit := one_le_toNat_clampLimit limit

/-- The page that the endpoint answers from a log. -/
def EventLog.taskPage (log : EventLog) (taskId : String) (fromId : Option ℤ) (limit : ℤ) :
    List StoredEvent :=
  Keyset.page StoredEvent.id fromId (pageSize limit) (log.ofTask taskId)

/-- When an endpoint takes a page for full. -/
theorem isFull_iff {page : List StoredEvent} {limit : ℤ} :
    (page.length : ℤ) = clampLimit limit ∧ page ≠ [] ↔ page.length = pageSize limit := by
  have hone := one_le_clampLimit limit
  rw [pageSize, ← List.length_pos_iff]
  omega

/-- **The endpoint paginates the log**: both clamps of the limit agree on what a full page
is. -/
theorem getTaskEvents_eq {ρ : Type} [EventRepository ρ] {repo : ρ} {log : EventLog}
    (h : Represents repo log) (taskId : String) (fromId : Option ℤ) (limit : ℤ) :
    getTaskEvents repo taskId fromId limit = .ok {
      taskId
      events := log.taskPage taskId fromId limit
      nextFromId := Keyset.nextCursor StoredEvent.id (pageSize limit)
        (log.taskPage taskId fromId limit) } := by
  have hclamp : max 1 (min limit readsMaxLimit) = clampLimit limit := rfl
  simp only [getTaskEvents, h.findByTask, EventLog.find, EventLog.taskPage, Keyset.nextCursor,
    hclamp, isFull_iff]
  rfl

/-- **The listing paginates the log**: a limit that has been checked is not clamped. -/
theorem listEvents_eq {ρ : Type} [EventRepository ρ] {repo : ρ} {log : EventLog}
    (h : Represents repo log) (q : EventQuery) :
    listEvents repo q = .ok {
      events := Keyset.page StoredEvent.id q.fromId (pageSize q.limit)
        (log.select q.filter.Matches)
      nextFromId := Keyset.nextCursor StoredEvent.id (pageSize q.limit)
        (Keyset.page StoredEvent.id q.fromId (pageSize q.limit) (log.select q.filter.Matches))
      filterApplied := q.filterApplied } := by
  have hclamp : q.limit = clampLimit q.limit := by
    obtain ⟨hone, hmax⟩ := q.limit_mem
    rw [clampLimit, maxLimit, min_eq_left hmax, max_eq_right hone]
  have hfull : ∀ page : List StoredEvent,
      (page.length : ℤ) = q.limit ∧ page ≠ [] ↔ page.length = pageSize q.limit := by
    intro page
    rw [← isFull_iff, ← hclamp]
  simp only [listEvents, h.findFiltered, EventLog.find, Keyset.nextCursor, hfull]
  rfl

end Vfobs
