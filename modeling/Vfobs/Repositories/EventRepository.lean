import Vfobs.Events.Event
import Vfobs.Foundations.Keyset
import Mathlib.Data.List.Perm.Basic

/-!
# The event repository

`EventRepository` is the abstract class of the source: its read methods, each of which may
raise. `EventLog` is what a repository holds in the abstract, the stored events in strictly
increasing order of their ids, and `Represents r log` says that every read method of `r`
answers from `log`. An implementation is correct when it represents the log of what it
holds; two that represent one log are interchangeable (`Represents.agree`).
-/

namespace Vfobs

/-- The exceptions that reach a caller of the repository. -/
inductive RepositoryError
  | valueError (message : String)
  | keyError (key : String)
  | validationError
  | dataError (message : String)
  deriving DecidableEq

/-- `StoredEvent`: an event and its id. -/
structure StoredEvent where
  id : ℤ
  event : Event

/-- `CostSummary`; costs are exact. -/
structure CostSummary where
  totalCostUsd : ℚ
  totalTokens : ℤ
  totalTurns : ℤ
  taskCount : ℕ
  sampleEventCount : ℕ
  deriving DecidableEq

/-- `_MAX_LIMIT`. -/
def maxLimit : ℤ := 1000

/-- `_clamp_limit`. -/
def clampLimit (limit : ℤ) : ℤ := max 1 (min limit maxLimit)

theorem one_le_clampLimit (limit : ℤ) : 1 ≤ clampLimit limit := le_max_left _ _

theorem one_le_toNat_clampLimit (limit : ℤ) : 1 ≤ (clampLimit limit).toNat := by
  have := one_le_clampLimit limit
  omega

/-- The optional filters of `find_filtered`. -/
structure EventFilter where
  workgraphId : Option String := none
  taskId : Option String := none
  agentId : Option String := none
  type : Option String := none
  typeNamespace : Option String := none
  orgId : Option String := none

/-- What `find_filtered` is asked for: every filter that is given holds of the event. -/
def EventFilter.Matches (f : EventFilter) (e : Event) : Prop :=
  (∀ w ∈ f.workgraphId, e.workgraphId = w) ∧ (∀ t ∈ f.taskId, e.taskId = some t) ∧
    (∀ a ∈ f.agentId, e.agentId = some a) ∧ (∀ o ∈ f.orgId, e.orgId = o) ∧
    (∀ t ∈ f.type, e.type = t) ∧ ∀ n ∈ f.typeNamespace, namespaceOf e.type = n

instance (f : EventFilter) (e : Event) : Decidable (f.Matches e) :=
  inferInstanceAs (Decidable (_ ∧ _))

/-- The read methods of `EventRepository`. -/
class EventRepository (ρ : Type) where
  findByWorkgraph : ρ → String → Option ℤ → ℤ → Except RepositoryError (List StoredEvent)
  findByTask : ρ → String → Option ℤ → ℤ → Except RepositoryError (List StoredEvent)
  findFiltered : ρ → EventFilter → Option ℤ → ℤ → Except RepositoryError (List StoredEvent)
  findLastByWorkgraph : ρ → String → Except RepositoryError (Option StoredEvent)
  findLastByTask : ρ → String → Except RepositoryError (Option StoredEvent)
  countByWorkgraph : ρ → String → ℕ
  countByTask : ρ → String → ℕ
  costSummary : ρ → Option String → Option String → Except RepositoryError CostSummary

/-! ### The abstract log -/

/-- The stored events, in strictly increasing order of id. -/
structure EventLog where
  entries : List StoredEvent
  sorted : KeyOrder.Sorted StoredEvent.id entries

namespace EventLog

/-- The log of a collection of stored events with distinct ids. -/
def ofList (l : List StoredEvent) (hnodup : (l.map StoredEvent.id).Nodup) : EventLog :=
  ⟨KeyOrder.sort StoredEvent.id l, KeyOrder.sorted_sort hnodup⟩

@[simp]
theorem mem_ofList {l : List StoredEvent} {hnodup : (l.map StoredEvent.id).Nodup}
    {se : StoredEvent} : se ∈ (ofList l hnodup).entries ↔ se ∈ l :=
  KeyOrder.mem_sort

variable (log : EventLog) (p : Event → Prop) [DecidablePred p]

/-- The entries whose event satisfies `p`. -/
def select : List StoredEvent := log.entries.filter fun se => p se.event

theorem sorted_select : KeyOrder.Sorted StoredEvent.id (log.select p) :=
  log.sorted.filter _

@[simp]
theorem mem_select {se : StoredEvent} : se ∈ log.select p ↔ se ∈ log.entries ∧ p se.event := by
  simp [select]

/-- One page: at most the clamped limit, from the cursor on. -/
def find (fromId : Option ℤ) (limit : ℤ) : List StoredEvent :=
  Keyset.page StoredEvent.id fromId (clampLimit limit).toNat (log.select p)

/-- The entry with the highest id. -/
def last : Option StoredEvent := (log.select p).getLast?

/-- How many there are. -/
def count : ℕ := (log.select p).length

end EventLog

/-! ### Refinement -/

/-- The read methods of `r`, `cost_summary` apart, answer from `log`. -/
structure Represents {ρ : Type} [EventRepository ρ] (r : ρ) (log : EventLog) : Prop where
  findByWorkgraph : ∀ w fromId limit, EventRepository.findByWorkgraph r w fromId limit =
    .ok (log.find (fun e => e.workgraphId = w) fromId limit)
  findByTask : ∀ t fromId limit, EventRepository.findByTask r t fromId limit =
    .ok (log.find (fun e => e.taskId = some t) fromId limit)
  findFiltered : ∀ f fromId limit, EventRepository.findFiltered r f fromId limit =
    .ok (log.find f.Matches fromId limit)
  findLastByWorkgraph : ∀ w, EventRepository.findLastByWorkgraph r w =
    .ok (log.last fun e => e.workgraphId = w)
  findLastByTask : ∀ t, EventRepository.findLastByTask r t =
    .ok (log.last fun e => e.taskId = some t)
  countByWorkgraph : ∀ w, EventRepository.countByWorkgraph r w =
    log.count fun e => e.workgraphId = w
  countByTask : ∀ t, EventRepository.countByTask r t = log.count fun e => e.taskId = some t

end Vfobs
