import Vfobs.Api.Reads
import Vfobs.Repositories.InMemory

/-!
# The paginating read client

`ReadClient.task_events` asks for page after page and follows the cursor of each response,
until one has none. `Walk` is the state of that loop and `Walk.fetch` one turn of it against
a repository behind the endpoint; a response the client cannot read, or an error status,
ends the walk as `ReadUnavailable`.

Against a repository that represents a log, a turn is one step of keyset pagination
(`Walk.fetch_eq`), so that the general facts about a reader in step with a growing list
apply. `taskEvents` is the loop, whose fetches may each meet a repository of its own; where
their logs only grow at the end, it returns the events of the task in the log that its last
fetch met (`taskEvents_of_invariant`).

`task_events_exact`: over the in-memory repository, with any `store` calls between its
fetches, the loop ends and returns exactly the events that the task has in the store at the
last one.
-/

namespace Vfobs

open JsonCodec

/-- `StoredEventView`. -/
structure StoredEventView where
  id : ℤ
  type : String
  timestamp : String
  data : Json

/-- The view of one item of `events`; `none` is a `KeyError` or a field of another type. -/
def viewOf (se : Json) : Option StoredEventView := do
  let ev ← se.get? "event"
  let id ← (se.get? "id").bind Json.asInt?
  let type ← (ev.get? "type").bind Json.asStr?
  let timestamp ← (ev.get? "timestamp").bind Json.asStr?
  some { id, type, timestamp, data := (ev.get? "data").getD (.obj []) }

/-- What the client reads off a body: the views and the next cursor. -/
def readBody (body : Json) : Option (List StoredEventView × Option ℤ) := do
  let items ← (body.get? "events").bind Json.asArr?
  let views ← items.mapM viewOf
  let nxt ← validateOption ((body.get? "next_from_id").getD .null)
  some (views, nxt)

/-- The variables of the loop, and whether it has returned. -/
structure Walk where
  fromId : Option ℤ := none
  out : List StoredEventView := []
  returned : Bool := false

/-- What `GET /tasks/<id>/events` answers; `none` is an error status. -/
def serve {ρ : Type} [EventRepository ρ] (repo : ρ) (taskId : String) (pageLimit : ℤ)
    (fromId : Option ℤ) : Option Json :=
  match getTaskEvents repo taskId fromId pageLimit with
  | .ok response => some response.modelDump
  | .error _ => none

/-- One turn of the loop; `none` raises `ReadUnavailable`. -/
def Walk.fetch {ρ : Type} [EventRepository ρ] (repo : ρ) (taskId : String) (pageLimit : ℤ)
    (w : Walk) : Option Walk := do
  let body ← serve repo taskId pageLimit w.fromId
  let (views, nxt) ← readBody body
  match nxt with
  | none => some { w with out := w.out ++ views, returned := true }
  | some n => some { w with out := w.out ++ views, fromId := some n }

/-! ### One turn -/

/-- The view that the client has of a stored event. -/
def StoredEvent.view (se : StoredEvent) : StoredEventView where
  id := se.id
  type := se.event.type
  timestamp := se.event.timestamp.1.isoText
  data := .obj []

theorem viewOf_modelDump (se : StoredEvent) : viewOf se.modelDump = some se.view := by
  simp [viewOf, StoredEvent.modelDump, Event.modelDumpAsBase, Event.baseFields, List.lookup_cons,
    StoredEvent.view, dump, Json.asInt?, Json.asStr?]

theorem readBody_modelDump (r : TaskEventsResponse) :
    readBody r.modelDump = some (r.events.map StoredEvent.view, r.nextFromId) := by
  have hviews : (r.events.map StoredEvent.modelDump).mapM viewOf =
      some (r.events.map StoredEvent.view) := by
    induction r.events with
    | nil => rfl
    | cons se events ih => rw [List.map_cons, List.mapM_cons, viewOf_modelDump, ih]; rfl
  simp [readBody, TaskEventsResponse.modelDump, List.lookup_cons, Json.asArr?, hviews]

/-- **A turn of the loop is a step of keyset pagination** over the events of the task. -/
theorem Walk.fetch_eq {ρ : Type} [EventRepository ρ] {repo : ρ} {log : EventLog}
    (h : Represents repo log) (taskId : String) (pageLimit : ℤ) (w : Walk) :
    w.fetch repo taskId pageLimit =
      let page := log.taskPage taskId w.fromId pageLimit
      match Keyset.nextCursor StoredEvent.id (pageSize pageLimit) page with
      | none => some { w with out := w.out ++ page.map StoredEvent.view, returned := true }
      | some n => some { w with out := w.out ++ page.map StoredEvent.view, fromId := some n } := by
  simp only [Walk.fetch, serve, getTaskEvents_eq h, Option.bind_eq_bind, Option.bind_some,
    readBody_modelDump]

/-! ### The loop over a growing log -/

section loop

variable {ρ : Type} [EventRepository ρ] (repos : ℕ → ρ) (taskId : String) (pageLimit : ℤ)

/-- The loop of `task_events` from fetch `i` on, where fetch `i` meets the repository
`repos i`: what the client returns, and which fetch was the last. `none` is
`ReadUnavailable`, or that the fuel has run out. -/
def taskEvents : ℕ → ℕ → Walk → Option (List StoredEventView × ℕ)
  | 0, _, _ => none
  | fuel + 1, i, w =>
    (w.fetch (repos i) taskId pageLimit).bind fun w =>
      if w.returned then some (w.out, i) else taskEvents fuel (i + 1) w

/-- `log'` has entries added to `log` at its end only. -/
structure EventLog.ExtendedBy (log log' : EventLog) : Prop where
  mem : ∀ se ∈ log.entries, se ∈ log'.entries
  new : ∀ se' ∈ log'.entries, se' ∈ log.entries ∨ ∀ se ∈ log.entries, se.id < se'.id

/-- The loop is in step with the events of the task: it has collected those before its
cursor, and the cursor follows one of them. -/
structure WalkInvariant (log : EventLog) (w : Walk) : Prop where
  inStep : ∃ out, w.out = out.map StoredEvent.view ∧
    Keyset.InStep StoredEvent.id (log.ofTask taskId) w.fromId out
  cursor : ∀ c ∈ w.fromId, ∃ se ∈ log.entries, c = se.id + 1
  running : w.returned = false

variable {repos taskId}

theorem walkInvariant_start (log : EventLog) : WalkInvariant taskId log {} :=
  ⟨⟨[], rfl, Keyset.inStep_start _⟩, nofun, rfl⟩

variable {log log' : EventLog} {w : Walk}

/-- New events of the task at or after the cursor do no harm. -/
theorem WalkInvariant.grow (h : WalkInvariant taskId log w)
    (hsub : ∀ se ∈ log.entries, se ∈ log'.entries)
    (hnew : ∀ se ∈ log'.ofTask taskId, se ∈ log.ofTask taskId ∨
      Keyset.Reaches StoredEvent.id w.fromId se) : WalkInvariant taskId log' w := by
  obtain ⟨out, hout, hstep⟩ := h.inStep
  refine ⟨⟨out, hout, hstep.grow (log.sorted_select _) (log'.sorted_select _) ?_ hnew⟩, ?_,
    h.running⟩
  · intro se hse
    rw [EventLog.mem_select] at hse ⊢
    exact ⟨hsub se hse.1, hse.2⟩
  · intro c hc
    obtain ⟨se, hse, hcursor⟩ := h.cursor c hc
    exact ⟨se, hsub se hse, hcursor⟩

/-- What is added at the end of the log is at or after the cursor. -/
theorem WalkInvariant.extend (h : WalkInvariant taskId log w) (hext : log.ExtendedBy log') :
    WalkInvariant taskId log' w := by
  refine h.grow hext.mem fun se' hse' => ?_
  rw [EventLog.mem_select] at hse'
  rcases hext.new se' hse'.1 with hold | hnew
  · exact .inl ((EventLog.mem_select _ _).mpr ⟨hold, hse'.2⟩)
  · right
    cases hc : w.fromId with
    | none => trivial
    | some c =>
      obtain ⟨se, hse, rfl⟩ := h.cursor c hc
      exact hnew se hse

/-- What the client holds are views of different entries of the log. -/
theorem WalkInvariant.length_out_le (h : WalkInvariant taskId log w) :
    w.out.length ≤ log.entries.length := by
  obtain ⟨out, hout, hstep⟩ := h.inStep
  rw [hout, List.length_map, hstep]
  exact (List.length_filter_le _ _).trans (List.length_filter_le _ _)

/-- **A turn of the loop** returns all events of the task, or goes on with more of them. -/
theorem WalkInvariant.fetch {repo : ρ} (h : WalkInvariant taskId log w)
    (hrep : Represents repo log) :
    ∃ w', w.fetch repo taskId pageLimit = some w' ∧
      (w'.returned = true ∧ w'.out = (log.ofTask taskId).map StoredEvent.view ∨
        WalkInvariant taskId log w' ∧ w.out.length < w'.out.length) := by
  obtain ⟨out, hout, hstep⟩ := h.inStep
  have hone := one_le_pageSize pageLimit
  have hfetch := hstep.fetch (log.sorted_select _) hone
  rw [Walk.fetch_eq hrep]
  simp only [EventLog.taskPage]
  cases hnext : Keyset.nextCursor StoredEvent.id (pageSize pageLimit)
      (Keyset.page StoredEvent.id w.fromId (pageSize pageLimit) (log.ofTask taskId)) with
  | none =>
    rw [hnext] at hfetch
    exact ⟨_, rfl, .inl ⟨rfl, by rw [hout, ← List.map_append, hfetch]⟩⟩
  | some c =>
    rw [hnext] at hfetch
    obtain ⟨se, hse, -, rfl⟩ := Keyset.nextCursor_mem hnext
    have hlen := (Keyset.nextCursor_eq_some hnext).1
    refine ⟨_, rfl, .inr ⟨⟨⟨_, by rw [hout, ← List.map_append], hfetch⟩, ?_, h.running⟩, ?_⟩⟩
    · rintro c ⟨⟩
      exact ⟨se, ((EventLog.mem_select _ _).mp hse).1, rfl⟩
    · simp only [List.length_append, List.length_map, hlen]
      omega

variable {logs : ℕ → EventLog}

/-- **The loop over a growing log.** Where the fetches meet ever longer logs, up to a bound,
the loop ends once it has fuel for what it has not collected, and returns the events of the
task in the log that its last fetch met. -/
theorem taskEvents_of_invariant (hrep : ∀ i, Represents (repos i) (logs i))
    (hext : ∀ i, (logs i).ExtendedBy (logs (i + 1))) {bound : ℕ}
    (hbound : ∀ i, (logs i).entries.length ≤ bound) (fuel i : ℕ) {w : Walk}
    (h : WalkInvariant taskId (logs i) w) (hfuel : bound < fuel + w.out.length) :
    ∃ k, taskEvents repos taskId pageLimit fuel i w =
      some (((logs k).ofTask taskId).map StoredEvent.view, k) := by
  induction fuel generalizing i w with
  | zero =>
    have hle := h.length_out_le.trans (hbound i)
    omega
  | succ fuel ih =>
    obtain ⟨w', hw', ⟨hreturned, hout⟩ | ⟨hinv, hmore⟩⟩ := h.fetch pageLimit (hrep i)
    · refine ⟨i, ?_⟩
      simp only [taskEvents, hw', Option.bind_some, hreturned, if_true, hout]
    · obtain ⟨k, hrun⟩ := ih (i + 1) (hinv.extend (hext i)) (by omega)
      refine ⟨k, ?_⟩
      simp only [taskEvents, hw', Option.bind_some, hinv.running, Bool.false_eq_true, if_false,
        hrun]

variable (taskId) in
/-- **The loop over a repository at rest.** -/
theorem taskEvents_at_rest {repo : ρ} (hrep : Represents repo log) :
    ∃ enough, ∀ fuel ≥ enough, ∃ k, taskEvents (fun _ => repo) taskId pageLimit fuel 0 {} =
      some ((log.ofTask taskId).map StoredEvent.view, k) := by
  have hself : log.ExtendedBy log := ⟨fun _ hse => hse, fun _ hse => .inl hse⟩
  exact ⟨log.entries.length + 1, fun fuel hfuel =>
    taskEvents_of_invariant pageLimit (fun _ => hrep) (fun _ => hself) (fun _ => le_rfl) fuel 0
      (walkInvariant_start log) hfuel⟩

end loop

/-! ### The walk over the in-memory repository -/

namespace InMemoryEventRepository

/-- The repository that fetch `i` meets: `batches` are the events stored before each fetch, and
once they are used up nothing more is stored. -/
def atFetch (repo : InMemoryEventRepository) (batches : List (List Event)) (i : ℕ) :
    InMemoryEventRepository :=
  repo.storeAll (batches.take (i + 1)).flatten

/-- What is stored comes after what was there. -/
theorem extendedBy_storeAll (repo : InMemoryEventRepository) (events : List Event) :
    repo.log.ExtendedBy (repo.storeAll events).log := by
  obtain ⟨items, hitems, -, hfrom⟩ := repo.storeAll_spec events
  constructor
  · intro se hse
    rw [mem_log] at hse ⊢
    exact hitems ▸ List.mem_append_left _ hse
  · intro se' hse'
    rw [mem_log, hitems, List.mem_append] at hse'
    refine hse'.imp mem_log.mpr fun hnew se hse => ?_
    exact (repo.fresh _ (mem_log.mp hse)).trans_le (hfrom _ hnew)

theorem extendedBy_atFetch (repo : InMemoryEventRepository) (batches : List (List Event)) (i : ℕ) :
    (repo.atFetch batches i).log.ExtendedBy (repo.atFetch batches (i + 1)).log := by
  have hnext : (batches.take (i + 1 + 1)).flatten =
      (batches.take (i + 1)).flatten ++ (batches[i + 1]?.toList).flatten := by
    rw [List.take_add_one, List.flatten_append]
  rw [atFetch, atFetch, hnext, storeAll_append]
  exact extendedBy_storeAll _ _

/-- The repository never grows beyond what is stored in all. -/
theorem length_atFetch_le (repo : InMemoryEventRepository) (batches : List (List Event)) (i : ℕ) :
    (repo.atFetch batches i).log.entries.length ≤ repo.events.length + batches.flatten.length := by
  obtain ⟨items, hitems, hlen, -⟩ := repo.storeAll_spec (batches.take (i + 1)).flatten
  have hle : (batches.take (i + 1)).flatten.length ≤ batches.flatten.length := by
    conv_rhs => rw [← List.take_append_drop (i + 1) batches, List.flatten_append,
      List.length_append]
    exact Nat.le_add_right _ _
  rw [log_entries, List.length_map, KeyOrder.length_sort, atFetch, hitems, List.length_append, hlen]
  omega

end InMemoryEventRepository

/-- **The walk is exact.** From any state of the in-memory repository, for every task, limit
and sequence of stores between the fetches, the loop returns, and what it returns are, by
id, type and timestamp, the events of the task in the repository at the last fetch, once each
and in strictly increasing order of id. -/
theorem task_events_exact (repo : InMemoryEventRepository) (taskId : String) (pageLimit : ℤ)
    (batches : List (List Event)) :
    ∃ enough, ∀ fuel ≥ enough, ∃ views k,
      taskEvents (repo.atFetch batches) taskId pageLimit fuel 0 {} = some (views, k) ∧
        (∀ i type timestamp, (∃ v ∈ views, (v.id, v.type, v.timestamp) = (i, type, timestamp)) ↔
          ∃ e, (i, e) ∈ (repo.atFetch batches k).events ∧ e.taskId = some taskId ∧
            type = e.type ∧ timestamp = e.timestamp.1.isoText) ∧
        (views.map StoredEventView.id).Pairwise (· < ·) := by
  have hrep : ∀ i, Represents (repo.atFetch batches i) (repo.atFetch batches i).log := fun _ =>
    InMemoryEventRepository.represents _
  refine ⟨repo.events.length + batches.flatten.length + 1, fun fuel hfuel => ?_⟩
  obtain ⟨k, hrun⟩ := taskEvents_of_invariant pageLimit hrep (repo.extendedBy_atFetch batches)
    (repo.length_atFetch_le batches) fuel 0 (walkInvariant_start _) hfuel
  refine ⟨_, k, hrun, fun i type timestamp => ?_, ?_⟩
  · simp only [List.mem_map, exists_exists_and_eq_and, EventLog.mem_select,
      InMemoryEventRepository.mem_log, StoredEvent.view, Prod.mk.injEq]
    constructor
    · rintro ⟨se, ⟨hse, htask⟩, rfl, rfl, rfl⟩
      exact ⟨se.event, hse, htask, rfl, rfl⟩
    · rintro ⟨e, he, htask, rfl, rfl⟩
      exact ⟨⟨i, e⟩, ⟨he, htask⟩, rfl, rfl, rfl⟩
  · rw [List.map_map]
    exact List.pairwise_map.mpr ((repo.atFetch batches k).log.sorted_select _)

end Vfobs
