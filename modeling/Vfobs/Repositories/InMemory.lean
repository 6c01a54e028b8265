import Vfobs.Foundations.LatestPer
import Vfobs.Repositories.EventRepository
import Mathlib.Algebra.BigOperators.Group.List.Basic
import Mathlib.Algebra.Ring.Int.Defs
import Mathlib.Algebra.Ring.Rat

/-!
# The in-memory repository

`_events` is the list of the items of a dictionary, in insertion order; that its keys are
distinct and below the next id is part of the type. `_scan` is a loop over the sorted items
that leaves early when its page is full, `_matching` a comprehension, `cost_summary` a loop
over a second dictionary.

`InMemoryEventRepository.represents`: the read methods answer from the log of the items.
-/

namespace Vfobs

/-- `InMemoryEventRepository`. -/
structure InMemoryEventRepository where
  events : List (ℤ × Event)
  nextId : ℤ
  nodup : (events.map Prod.fst).Nodup
  fresh : ∀ item ∈ events, item.1 < nextId

/-- An item as the read model has it. -/
def storedItem (item : ℤ × Event) : StoredEvent := ⟨item.1, item.2⟩

/-- `getattr(data, "execution_summary", None)`. -/
def EventData.executionSummary : EventData → Option ExecutionSummary
  | .taskStateChanged data => data.executionSummary
  | _ => none

/-- The message of the scope check of `cost_summary`. -/
def costScopeMessage : String := "cost_summary requires exactly one of workgraph_id or agent_id"

namespace InMemoryEventRepository

/-- `InMemoryEventRepository()`. -/
def init : InMemoryEventRepository := ⟨[], 1, List.nodup_nil, by simp⟩

/-- `store`. -/
def store (repo : InMemoryEventRepository) (event : Event) : ℤ × InMemoryEventRepository :=
  (repo.nextId,
    { events := repo.events ++ [(repo.nextId, event)]
      nextId := repo.nextId + 1
      nodup := by
        rw [List.map_append, List.map_singleton, List.nodup_append]
        refine ⟨repo.nodup, List.nodup_singleton _, fun i hi j hj => ?_⟩
        obtain ⟨item, hitem, rfl⟩ := List.mem_map.mp hi
        rw [List.mem_singleton.mp hj]
        exact (repo.fresh item hitem).ne
      fresh := by
        intro item hitem
        rcases List.mem_append.mp hitem with h | h
        · exact (repo.fresh item h).trans (Int.lt_succ _)
        · rw [List.mem_singleton.mp h]
          exact Int.lt_succ _ })

/-- `get_by_id`. -/
def getById (repo : InMemoryEventRepository) (eventId : ℤ) : Option Event :=
  repo.events.lookup eventId

/-- The loop of `_scan` over the sorted items, with the page so far. -/
def scanLoop (predicate : Event → Bool) (fromId : Option ℤ) (cap : ℤ) :
    List (ℤ × Event) → List StoredEvent → List StoredEvent
  | [], out => out
  | (eid, ev) :: items, out =>
    -- the two `continue`s, and the `break` of a full page
    if ∃ f ∈ fromId, eid < f then scanLoop predicate fromId cap items out
    else if ¬ predicate ev then scanLoop predicate fromId cap items out
    else
      let out := out ++ [⟨eid, ev⟩]
      if cap ≤ out.length then out else scanLoop predicate fromId cap items out

/-- `_scan`. -/
def scan (repo : InMemoryEventRepository) (predicate : Event → Bool) (fromId : Option ℤ)
    (limit : ℤ) : List StoredEvent :=
  scanLoop predicate fromId (clampLimit limit) (KeyOrder.sort Prod.fst repo.events) []

/-- `pred` of `find_filtered`. -/
def filterPred (f : EventFilter) (ev : Event) : Bool :=
  if ∃ w ∈ f.workgraphId, ev.workgraphId ≠ w then false
  else if ∃ t ∈ f.taskId, ev.taskId ≠ some t then false
  else if ∃ a ∈ f.agentId, ev.agentId ≠ some a then false
  else if ∃ o ∈ f.orgId, ev.orgId ≠ o then false
  else if ∃ t ∈ f.type, ev.type ≠ t then false
  else if ∃ n ∈ f.typeNamespace, namespaceOf ev.type ≠ n then false
  else true

/-- `_matching`. -/
def matching (repo : InMemoryEventRepository) (p : Event → Bool) : List (ℤ × Event) :=
  repo.events.filter fun item => p item.2

/-- `max(m, key=lambda t: t[0])` as a stored event, `None` when `m` is empty. -/
def findLast (repo : InMemoryEventRepository) (p : Event → Bool) : Option StoredEvent :=
  (KeyOrder.maxBy Prod.fst (repo.matching p)).map storedItem

/-- What an item adds to a cost summary: the turns of the loop that reach `latest`. -/
def contribution (workgraphId agentId : Option String) (item : ℤ × Event) :
    Option (String × ℤ × ExecutionSummary) :=
  let (eid, ev) := item
  match ev.taskId with
  | none => none
  | some taskId =>
    if ev.type ≠ "task.state_changed" then none
    else if ∃ w ∈ workgraphId, ev.workgraphId ≠ w then none
    else if ∃ a ∈ agentId, ev.agentId ≠ some a then none
    else ev.data.executionSummary.map fun es => (taskId, eid, es)

/-- `latest`: by task, the summary with the highest id. -/
def latest (repo : InMemoryEventRepository) (workgraphId agentId : Option String) :
    List (String × ℤ × ExecutionSummary) :=
  repo.events.foldl (fun held item =>
    match contribution workgraphId agentId item with
    | some c => LatestPer.keepStep Prod.fst (fun c => c.2.1) held c
    | none => held) []

/-- The totals over the values of `latest`. -/
def totals (latest : List (String × ℤ × ExecutionSummary)) : CostSummary where
  totalCostUsd := (latest.map fun c => c.2.2.costUsd.getD 0).sum
  totalTokens := (latest.map fun c => c.2.2.totalTokens.getD 0).sum
  totalTurns := (latest.map fun c => c.2.2.numTurns.getD 0).sum
  taskCount := latest.length
  sampleEventCount := latest.length

/-- `cost_summary`. -/
def costSummary (repo : InMemoryEventRepository) (workgraphId agentId : Option String) :
    Except RepositoryError CostSummary :=
  if workgraphId.isNone = agentId.isNone then .error (.valueError costScopeMessage)
  else .ok (totals (repo.latest workgraphId agentId))

instance : EventRepository InMemoryEventRepository where
  findByWorkgraph repo w fromId limit := .ok (repo.scan (fun ev => ev.workgraphId = w) fromId limit)
  findByTask repo t fromId limit := .ok (repo.scan (fun ev => ev.taskId = some t) fromId limit)
  findFiltered repo f fromId limit := .ok (repo.scan (filterPred f) fromId limit)
  findLastByWorkgraph repo w := .ok (repo.findLast fun ev => ev.workgraphId = w)
  findLastByTask repo t := .ok (repo.findLast fun ev => ev.taskId = some t)
  countByWorkgraph repo w := (repo.matching fun ev => ev.workgraphId = w).length
  countByTask repo t := (repo.matching fun ev => ev.taskId = some t).length
  costSummary := costSummary

/-! ### The log -/

theorem nodup_storedItem {items : List (ℤ × Event)} (h : (items.map Prod.fst).Nodup) :
    ((items.map storedItem).map StoredEvent.id).Nodup := by
  rwa [List.map_map]

/-- The log the repository holds. -/
def log (repo : InMemoryEventRepository) : EventLog :=
  EventLog.ofList (repo.events.map storedItem) (nodup_storedItem repo.nodup)

theorem log_entries (repo : InMemoryEventRepository) :
    repo.log.entries = (KeyOrder.sort Prod.fst repo.events).map storedItem :=
  KeyOrder.sort_map storedItem repo.events

@[simp]
theorem mem_log {repo : InMemoryEventRepository} {se : StoredEvent} :
    se ∈ repo.log.entries ↔ (se.id, se.event) ∈ repo.events := by
  rw [log, EventLog.mem_ofList, List.mem_map]
  constructor
  · rintro ⟨item, hitem, rfl⟩
    exact hitem
  · exact fun h => ⟨_, h, rfl⟩

/-! ### Refinement -/

theorem exists_lt_iff_not_reaches {fromId : Option ℤ} {item : ℤ × Event} :
    (∃ f ∈ fromId, item.1 < f) ↔ ¬ Keyset.Reaches Prod.fst fromId item := by
  cases fromId <;> simp [Keyset.Reaches]

/-- The loop appends what is still free of its page from the items that pass both checks. -/
theorem scanLoop_eq (predicate : Event → Bool) (fromId : Option ℤ) {cap : ℤ}
    (items : List (ℤ × Event)) {out : List StoredEvent} (hout : out.length < cap) :
    scanLoop predicate fromId cap items out = out ++
      ((Keyset.rest Prod.fst fromId (items.filter fun item => predicate item.2)).take
        (cap.toNat - out.length)).map storedItem := by
  induction items generalizing out with
  | nil => simp [scanLoop, Keyset.rest]
  | cons item items ih =>
    simp only [scanLoop, exists_lt_iff_not_reaches]
    by_cases hreach : Keyset.Reaches Prod.fst fromId item
    · cases hpred : predicate item.2 with
      | false => simp [hreach, hpred, ih hout]
      | true =>
        have hroom : cap.toNat - out.length = (cap.toNat - out.length - 1) + 1 := by omega
        have hcons : Keyset.rest Prod.fst fromId
            ((item :: items).filter fun item => predicate item.2) =
              item :: Keyset.rest Prod.fst fromId (items.filter fun item => predicate item.2) := by
          simp [Keyset.rest, hpred, hreach]
        rw [if_neg (not_not.mpr hreach), if_neg (by simp), hcons, hroom, List.take_succ_cons,
          List.map_cons]
        split_ifs with hfull
        · -- the page is full: nothing more is taken
          have hzero : cap.toNat - out.length - 1 = 0 := by
            simp only [List.length_append, List.length_singleton] at hfull
            omega
          rw [hzero, List.take_zero, List.map_nil]
          rfl
        · have hlen : (out ++ [storedItem item]).length < cap := by
            simpa [storedItem] using hfull
          rw [show (out ++ [(⟨item.1, item.2⟩ : StoredEvent)]) = out ++ [storedItem item] from rfl,
            ih hlen, List.append_assoc, List.length_append, List.length_singleton,
            Nat.sub_add_eq]
          rfl
    · have hrest : Keyset.rest Prod.fst fromId
          ((item :: items).filter fun item => predicate item.2) =
            Keyset.rest Prod.fst fromId (items.filter fun item => predicate item.2) := by
        cases hpred : predicate item.2 <;> simp [Keyset.rest, hpred, hreach]
      rw [if_pos hreach, ih hout, hrest]

variable (repo : InMemoryEventRepository)

theorem select_log (p : Event → Prop) [DecidablePred p] :
    repo.log.select p =
      ((KeyOrder.sort Prod.fst repo.events).filter fun item => p item.2).map storedItem := by
  rw [EventLog.select, log_entries, List.filter_map]
  rfl

theorem scan_eq_find (p : Event → Prop) [DecidablePred p] (fromId : Option ℤ) (limit : ℤ) :
    repo.scan (fun ev => p ev) fromId limit = repo.log.find p fromId limit := by
  have hcap : ([] : List StoredEvent).length < clampLimit limit := one_le_clampLimit limit
  rw [scan, scanLoop_eq _ _ _ hcap, EventLog.find, Keyset.page, select_log, Keyset.rest_map,
    ← List.map_take, List.nil_append]
  rfl

theorem filterPred_eq (f : EventFilter) : filterPred f = fun ev => decide (f.Matches ev) := by
  funext ev
  unfold filterPred EventFilter.Matches
  split_ifs <;> simp_all

theorem findLast_eq_last (p : Event → Prop) [DecidablePred p] :
    repo.findLast (fun ev => p ev) = repo.log.last p := by
  have hnodup : ((repo.matching fun ev => p ev).map Prod.fst).Nodup :=
    repo.nodup.sublist (List.filter_sublist.map Prod.fst)
  rw [findLast, EventLog.last, select_log, KeyOrder.filter_sort repo.nodup, List.getLast?_map,
    ← KeyOrder.getLast?_sort hnodup]
  rfl

theorem length_matching (p : Event → Prop) [DecidablePred p] :
    (repo.matching fun ev => p ev).length = repo.log.count p := by
  have hperm := (KeyOrder.sort_perm Prod.fst repo.events).filter fun item => decide (p item.2)
  rw [EventLog.count, select_log, List.length_map, hperm.length_eq, matching]

/-- **The in-memory repository answers from its log.** -/
theorem represents : Represents repo repo.log where
  findByWorkgraph _ fromId limit := congrArg Except.ok (repo.scan_eq_find _ fromId limit)
  findByTask _ fromId limit := congrArg Except.ok (repo.scan_eq_find _ fromId limit)
  findFiltered f fromId limit := by
    rw [← scan_eq_find, ← filterPred_eq]
    rfl
  findLastByWorkgraph _ := congrArg Except.ok (repo.findLast_eq_last _)
  findLastByTask _ := congrArg Except.ok (repo.findLast_eq_last _)
  countByWorkgraph _ := repo.length_matching _
  countByTask _ := repo.length_matching _

/-! ### Stores -/

theorem lookup_eq_none_of_fresh {i : ℤ} (h : repo.nextId ≤ i) : repo.events.lookup i = none := by
  rw [List.lookup_eq_none_iff]
  intro item hitem
  simpa using (repo.fresh item hitem).trans_le h |>.ne'

/-- An event can be read back under the id it was stored with. -/
theorem getById_store_self (event : Event) :
    (repo.store event).2.getById repo.nextId = some event := by
  simp [getById, store, List.lookup_append, repo.lookup_eq_none_of_fresh le_rfl]

/-- The other ids are not concerned. -/
theorem getById_store_of_ne (event : Event) {i : ℤ} (h : i ≠ repo.nextId) :
    (repo.store event).2.getById i = repo.getById i := by
  have hlast : [(repo.nextId, event)].lookup i = none := by
    rw [List.lookup_cons, beq_false_of_ne h]
    rfl
  simp only [getById, store, List.lookup_append, hlast, Option.or_none]

/-- A store adds its event at the end of the log. -/
theorem log_store (event : Event) :
    (repo.store event).2.log.entries = repo.log.entries ++ [⟨repo.nextId, event⟩] := by
  have hsorted : KeyOrder.Sorted StoredEvent.id (repo.log.entries ++ [⟨repo.nextId, event⟩]) := by
    refine List.pairwise_append.mpr ⟨repo.log.sorted, List.pairwise_singleton _ _, ?_⟩
    intro se hse last hlast
    rw [List.mem_singleton.mp hlast]
    exact repo.fresh _ (mem_log.mp hse)
  refine (repo.store event).2.log.sorted.eq_of_mem_iff hsorted fun se => ?_
  obtain ⟨i, e⟩ := se
  simp [mem_log, store]

/-- The repository after `store` of each event in turn. -/
def storeAll (events : List Event) : InMemoryEventRepository :=
  events.foldl (fun repo event => (repo.store event).2) repo

theorem storeAll_append (events events' : List Event) :
    repo.storeAll (events ++ events') = (repo.storeAll events).storeAll events' :=
  List.foldl_append

/-- **What stores do to the items**: as many more as are stored, all of them from the next id
on. -/
theorem storeAll_spec (events : List Event) :
    ∃ items : List (ℤ × Event), (repo.storeAll events).events = repo.events ++ items ∧
      items.length = events.length ∧ ∀ item ∈ items, repo.nextId ≤ item.1 := by
  induction events generalizing repo with
  | nil => exact ⟨[], (List.append_nil _).symm, rfl, by simp⟩
  | cons event events ih =>
    obtain ⟨items, hitems, hlen, hfrom⟩ := ih (repo.store event).2
    refine ⟨(repo.nextId, event) :: items, hitems.trans (List.append_assoc _ [_] _),
      by rw [List.length_cons, hlen, List.length_cons], ?_⟩
    rintro item (_ | ⟨_, hitem⟩)
    · exact le_rfl
    · have hstep : repo.nextId ≤ (repo.store event).2.nextId := (Int.lt_succ _).le
      exact hstep.trans (hfrom item hitem)

end InMemoryEventRepository

end Vfobs
