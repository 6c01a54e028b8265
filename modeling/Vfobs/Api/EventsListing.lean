import Vfobs.Api.Reads
import Vfobs.Repositories.InMemory

/-!
# Listing events page by page

A client of `GET /events` keeps its filters, chooses a limit for each page, and follows
`next_from_id` until it is `null`. Every one of its requests is validated like any other, so
a cursor that the query model refused would end the walk.

`listing_exact`: over the in-memory repository the client stops, and its pages make up the
stored events from the start on that pass the filters, in the order of their ids, whatever
the limits are.
-/

namespace Vfobs

open Keyset

/-- A limit that the endpoint takes. -/
abbrev PageLimit : Type := { limit : ℤ // 1 ≤ limit ∧ limit ≤ 1000 }

/-- The parameters of a request for one page. -/
def pageParams (given : EventFilter) (fromId : Option ℤ) (limit : PageLimit) : QueryParams where
  workgraphId := given.workgraphId
  taskId := given.taskId
  agentId := given.agentId
  type := given.type
  typeNamespace := given.typeNamespace
  orgId := given.orgId
  fromId
  limit := some limit.1

/-- The filters with the default organisation, when none is given. -/
def EventFilter.effective (given : EventFilter) : EventFilter :=
  { given with orgId := some (given.orgId.getD defaultOrgId) }

section follow

variable {ρ : Type} [EventRepository ρ] (repo : ρ) (given : EventFilter) (limits : ℕ → PageLimit)

/-- The pages that a client gets from page `i` on; `none` is an error status, or that the
fuel has run out. -/
def followEvents : ℕ → ℕ → Option ℤ → Option (List (List StoredEvent))
  | 0, _, _ => none
  | fuel + 1, i, fromId => do
    let q ← EventQuery.modelValidate (pageParams given fromId (limits i))
    let response ← (listEvents repo q).toOption
    match response.nextFromId with
    | none => some [response.events]
    | some c => (followEvents fuel (i + 1) (some c)).map fun pages => response.events :: pages

variable {repo given limits} {log : EventLog}

/-- The validated query of a page. -/
theorem exists_modelValidate_pageParams (given : EventFilter) {fromId : Option ℤ}
    (hfrom : ∀ c ∈ fromId, 0 ≤ c) (limit : PageLimit) :
    ∃ q, EventQuery.modelValidate (pageParams given fromId limit) = some q ∧
      q.filter = given.effective ∧ q.fromId = fromId ∧ q.limit = limit.1 :=
  ⟨_, dif_pos ⟨hfrom, limit.2⟩, rfl, rfl, rfl⟩

/-- **The client gets what is left from its cursor on.** -/
theorem followEvents_eq (h : Represents repo log) (hids : ∀ se ∈ log.entries, 0 ≤ se.id)
    {fuel i : ℕ} {fromId : Option ℤ} (hfrom : ∀ c ∈ fromId, 0 ≤ c)
    (hfuel : (rest StoredEvent.id fromId (log.select given.effective.Matches)).length < fuel) :
    ∃ pages, followEvents repo given limits fuel i fromId = some pages ∧
      pages.flatten = rest StoredEvent.id fromId (log.select given.effective.Matches) := by
  set l := log.select given.effective.Matches with hl
  have hsorted : KeyOrder.Sorted StoredEvent.id l := log.sorted_select _
  induction fuel generalizing i fromId with
  | zero => exact absurd hfuel (Nat.not_lt_zero _)
  | succ fuel ih =>
    obtain ⟨q, hq, hfilter, hfromId, hlimit⟩ :=
      exists_modelValidate_pageParams given hfrom (limits i)
    set n := pageSize (limits i).1
    have hresponse := listEvents_eq h q
    rw [hfilter, hfromId, hlimit, ← hl] at hresponse
    simp only [followEvents, hq, Option.bind_eq_bind, Option.bind_some, hresponse,
      Except.toOption]
    cases hnext : nextCursor StoredEvent.id n (page StoredEvent.id fromId n l) with
    | none =>
      refine ⟨_, rfl, ?_⟩
      rw [List.flatten_singleton, page_of_nextCursor_none (one_le_pageSize _) hnext]
    | some c =>
      obtain ⟨hrest, -⟩ := rest_nextCursor hsorted hnext
      -- the cursor follows the id of a stored event, so that the endpoint takes it
      have hc : ∀ c' ∈ some c, 0 ≤ c' := by
        rintro _ ⟨⟩
        obtain ⟨se, hse, -, rfl⟩ := nextCursor_mem hnext
        have hnonneg := hids se ((EventLog.mem_select _ _).mp hse).1
        omega
      have hfull : n ≤ (rest StoredEvent.id fromId l).length := by
        have hlen := (nextCursor_eq_some hnext).1
        rw [page, List.length_take] at hlen
        omega
      have hless : (rest StoredEvent.id (some c) l).length < fuel := by
        have hone : 1 ≤ n := one_le_pageSize _
        rw [hrest, List.length_drop]
        omega
      obtain ⟨pages, hpages, hflat⟩ := ih (i := i + 1) hc hless
      refine ⟨page StoredEvent.id fromId n l :: pages, congrArg (Option.map _) hpages, ?_⟩
      rw [List.flatten_cons, hflat, hrest, page, List.take_append_drop]

end follow

/-- The ids of a repository that has only seen stores are positive. -/
theorem InMemoryEventRepository.one_le_of_mem_storeAll {events : List Event} {item : ℤ × Event}
    (h : item ∈ (init.storeAll events).events) : 1 ≤ item.1 := by
  obtain ⟨items, hitems, -, hfrom⟩ := init.storeAll_spec events
  rw [hitems] at h
  exact hfrom item h

/-- **The listing is exact.** Whatever has been stored, which filters are given and where the
client starts: the events to list are those from the start on that pass the filters, in
strictly increasing order of their ids, and a client that follows the cursors gets them and
stops, whatever the limits of its pages. -/
theorem listing_exact (events : List Event) (given : EventFilter) (start : Option ℕ) :
    let repo := InMemoryEventRepository.init.storeAll events
    ∃ listing : List StoredEvent,
      listing.Pairwise (fun a b => a.id < b.id) ∧
      (∀ se, se ∈ listing ↔ (se.id, se.event) ∈ repo.events ∧ (∀ s ∈ start, s ≤ se.id) ∧
        given.effective.Matches se.event) ∧
      ∀ limits : ℕ → PageLimit, ∃ pages,
        followEvents repo given limits (listing.length + 1) 0 (start.map Nat.cast) = some pages ∧
          pages.flatten = listing := by
  intro repo
  refine ⟨rest StoredEvent.id (start.map Nat.cast) (repo.log.select given.effective.Matches),
    (repo.log.sorted_select _).filter _, fun se => ?_, fun limits => ?_⟩
  · have hstart : Reaches StoredEvent.id (start.map Nat.cast) se ↔ ∀ s ∈ start, s ≤ se.id := by
      cases start <;> simp [Reaches]
    rw [rest, List.mem_filter, decide_eq_true_eq, hstart, EventLog.mem_select,
      InMemoryEventRepository.mem_log, and_assoc, and_comm (b := ∀ s ∈ start, s ≤ se.id)]
  · refine followEvents_eq repo.represents (fun se hse => ?_) (by simp) (Nat.lt_succ_self _)
    exact Int.le_of_lt (InMemoryEventRepository.one_le_of_mem_storeAll
      (InMemoryEventRepository.mem_log.mp hse))

end Vfobs
