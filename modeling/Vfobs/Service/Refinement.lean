import Vfobs.Service.Requests

/-!
# The service, as a log

Over the in-memory repository the service is one log on which every request has its effect at one
moment between its arrival and its response, however the requests interleave. The moment is that
of the response: the responses of a run, in their order, are those of the operations that the
requests come to, carried out one after the other (`service_linearizable`).

So a client that goes through `GET /events` page by page while others post reads, in effect, once:
it collects what the log has when it is given the last page (`walk_is_one_read`).
-/

namespace Vfobs

open StepSystem

namespace Service

variable {ρ β : Type} [EventStore ρ] {hashPrefix : String → String}
  {readInt : String → Except String ℤ} {loads : β → Except PyException Json}
  {s s' : Service ρ β} {a : Action β} {start : ρ}

variable (readInt loads) in
/-- One operation is carried out and its result is the next response, or nothing is. -/
def Serves (s s' : Service ρ β) : Prop :=
  s'.repo = s.repo ∧ s'.served = s.served ∨
    ∃ number op, s'.repo = (perform readInt loads s.repo op).2 ∧
      s'.served = s.served ++ [⟨number, op, (perform readInt loads s.repo op).1⟩]

theorem serves_respond (hrepo : s'.repo = s.repo) (hserved : s'.served = s.served) (number : ℕ)
    (op : Operation β) : s.Serves readInt loads (s'.respond readInt loads number op) := by
  refine .inr ⟨number, op, ?_, ?_⟩ <;> simp only [respond, hrepo, hserved]

theorem serves_enter (hrepo : s'.repo = s.repo) (hserved : s'.served = s.served) (number : ℕ)
    (route : Route) : s.Serves readInt loads (s'.enter readInt loads number route) := by
  obtain ⟨op, -, henter⟩ | ⟨call, -, -, henter⟩ := s'.enter_cases readInt loads number route
  · exact henter ▸ serves_respond hrepo hserved number op
  · exact henter ▸ .inl ⟨hrepo, hserved⟩

/-- **A step serves one request at most.** -/
theorem serves_of_step (h : s.step hashPrefix readInt loads a = some s') :
    s.Serves readInt loads s' := by
  cases step_effect h with
  | pass | miss => exact .inl ⟨rfl, rfl⟩
  | posted | refused | denied | fetched => exact serves_respond rfl rfl _ _
  | static | hit | approved => exact serves_enter rfl rfl _ _

/-- Responses are final. -/
theorem responses_final {acts : List (Action β)}
    (hrun : run (step hashPrefix readInt loads) s acts = some s') : s.served <+: s'.served := by
  refine run_invariant (I := fun t : Service ρ β => s.served <+: t.served) ?_ List.prefix_rfl hrun
  intro t a t' ht h
  obtain ⟨-, hserved⟩ | ⟨number, op, -, hserved⟩ := serves_of_step h
  · rwa [hserved]
  · rw [hserved]
    exact ht.trans (List.prefix_append _ _)

variable (readInt loads) in
/-- The responses and the repository are those of the operations in turn. -/
def Replays (start : ρ) (s : Service ρ β) : Prop :=
  performAll readInt loads start (s.served.map Served.op) = (s.served.map Served.result, s.repo)

theorem Replays.step (hs : s.Replays readInt loads start)
    (h : s.step hashPrefix readInt loads a = some s') : s'.Replays readInt loads start := by
  obtain ⟨hrepo, hserved⟩ | ⟨number, op, hrepo, hserved⟩ := serves_of_step h
  · rw [Replays, hserved, hrepo]
    exact hs
  · rw [Replays] at hs
    simp only [Replays, hserved, hrepo, List.map_append, List.map_singleton, performAll_append, hs,
      performAll]

theorem replays_of_run {app : AppState} {ttl clock : ℚ} {acts : List (Action β)}
    (hrun : run (step hashPrefix readInt loads) (init app start ttl clock) acts = some s) :
    s.Replays readInt loads start := by
  have hinit : (init app start ttl clock : Service ρ β).Replays readInt loads start := rfl
  exact run_invariant (I := fun s : Service ρ β => s.Replays readInt loads start)
    (fun _ _ _ hs h => hs.step h) hinit hrun

/-- The log replays the responses of a service over the in-memory repository. -/
theorem Replays.state {start : InMemoryEventRepository} {s : Service InMemoryEventRepository β}
    (hs : s.Replays readInt loads start) :
    start.state.performAll readInt loads (s.served.map Served.op) =
      (s.served.map Served.result, s.repo.state) := by
  rw [← start.performAll_refines, hs]

/-- **The service is linearizable**, over the in-memory repository. In every run: the responses, in
the order in which they are given, are those of the operations of their requests on a log, one
after the other, which also leave it as it is; and what has been answered by some moment comes
before the responses to all requests that arrive later. -/
theorem service_linearizable {app : AppState} {start : InMemoryEventRepository} {ttl clock : ℚ}
    {acts : List (Action β)} {s : Service InMemoryEventRepository β}
    (hrun : run (step hashPrefix readInt loads) (init app start ttl clock) acts = some s) :
    start.state.performAll readInt loads (s.served.map Served.op) =
        (s.served.map Served.result, s.repo.state) ∧
      ∀ pre post t, acts = pre ++ post →
        run (step hashPrefix readInt loads) (init app start ttl clock) pre = some t →
          t.served <+: s.served ∧ ∀ r ∈ t.served, r.number < t.arrived.length := by
  refine ⟨(replays_of_run hrun).state, ?_⟩
  rintro pre post t rfl hpre
  obtain ⟨t', ht', hpost⟩ := run_append.mp hrun
  obtain rfl := Option.some.inj (hpre.symm.trans ht')
  refine ⟨responses_final hpost, fun r hr => ?_⟩
  have hnumber : r.number ∈ t.numbers := List.mem_append_right _ (List.mem_map_of_mem hr)
  exact List.mem_range.mp ((settled_and_matched hpre).1.mem_iff.mp hnumber)

/-- Two bodies that are no events are posted, and a task is asked for in between. -/
theorem service_linearizable_three :
    ∃ s, run (step id (fun _ => .error "int_parsing") fun _ : Unit => .ok .null)
        (init deployed InMemoryEventRepository.init 60 0)
        (earlyActs ++ [.arrive (some "changeme") (.postEvents (some .null)) 0]) = some s ∧
      InMemoryEventRepository.init.state.performAll (fun _ => .error "int_parsing")
        (fun _ => .ok .null) (s.served.map Served.op) =
          (s.served.map Served.result, s.repo.state) := by
  obtain ⟨s, hrun⟩ : ∃ s, run (step id (fun _ => .error "int_parsing") fun _ : Unit => .ok .null)
      (init deployed InMemoryEventRepository.init 60 0)
      (earlyActs ++ [.arrive (some "changeme") (.postEvents (some .null)) 0]) = some s :=
    ⟨_, rfl⟩
  exact ⟨s, hrun, (service_linearizable hrun).1⟩

/-! ### Walks -/

/-- A client goes through `GET /events` from a cursor, with one filter, and collects `out`. It
follows the cursors that it is given to the end, whatever the limits are. -/
inductive Walk (filter : EventFilter) : Option ℤ → List (Served β) → List StoredEvent → Prop
  | last {number : ℕ} {q : EventQuery} {vtf : Option (Upstream β)} {cursor : Option ℤ}
      {response : EventsFilterResponse} (hfilter : q.filter = filter) (hcursor : q.fromId = cursor)
      (hnext : response.nextFromId = none) :
      Walk filter cursor [⟨number, .read (.listEvents q) vtf, .ok (.events response)⟩]
        response.events
  | next {number : ℕ} {q : EventQuery} {vtf : Option (Upstream β)} {cursor : Option ℤ} {c : ℤ}
      {response : EventsFilterResponse} {pages : List (Served β)} {out : List StoredEvent}
      (hfilter : q.filter = filter) (hcursor : q.fromId = cursor)
      (hnext : response.nextFromId = some c) (hpages : Walk filter (some c) pages out) :
      Walk filter cursor (⟨number, .read (.listEvents q) vtf, .ok (.events response)⟩ :: pages)
        (response.events ++ out)

section

variable (readInt loads) (t : LogState)

/-- The log once the requests have been served. -/
def logAfter (served : List (Served β)) : LogState :=
  (t.performAll readInt loads (served.map Served.op)).2

/-- The log gives the responses. -/
def Answers (served : List (Served β)) : Prop :=
  (t.performAll readInt loads (served.map Served.op)).1 = served.map Served.result

variable {readInt loads t} {r : Served β} {served served' : List (Served β)}

theorem answers_cons_iff : Answers readInt loads t (r :: served) ↔
    (t.perform readInt loads r.op).1 = r.result ∧
      Answers readInt loads (t.perform readInt loads r.op).2 served :=
  List.cons_eq_cons

theorem answers_append_iff : Answers readInt loads t (served ++ served') ↔
    Answers readInt loads t served ∧
      Answers readInt loads (logAfter readInt loads t served) served' := by
  induction served generalizing t with
  | nil => exact (and_iff_right rfl).symm
  | cons r served ih =>
    rw [List.cons_append, answers_cons_iff, ih, answers_cons_iff, and_assoc]
    rfl

theorem logAfter_append : logAfter readInt loads t (served ++ served') =
    logAfter readInt loads (logAfter readInt loads t served) served' := by
  rw [logAfter, List.map_append, LogState.performAll_append]
  rfl

/-- A page of `GET /events` is one of the log. -/
theorem events_of_answers {number : ℕ} {q : EventQuery} {vtf : Option (Upstream β)}
    {response : EventsFilterResponse}
    (h : Answers readInt loads t
      (⟨number, .read (.listEvents q) vtf, .ok (.events response)⟩ :: served)) :
    response.events = Keyset.page StoredEvent.id q.fromId (pageSize q.limit)
        (t.log.select q.filter.Matches) ∧
      response.nextFromId =
        Keyset.nextCursor StoredEvent.id (pageSize q.limit) response.events := by
  obtain ⟨hresult, -⟩ := answers_cons_iff.mp h
  obtain rfl := ReadBody.events.inj (Result.ok.inj hresult)
  exact ⟨rfl, rfl⟩

/-- A walk collects what the log has when its last page is served. -/
theorem Walk.eq_rest {filter : EventFilter} {cursor : Option ℤ} {pages : List (Served β)}
    {out : List StoredEvent} (hwalk : Walk filter cursor pages out)
    (hpages : pages.Sublist served) (hserved : Answers readInt loads t served) :
    ∃ before last after, served = before ++ last :: after ∧ pages.getLast? = some last ∧
      out = Keyset.rest StoredEvent.id cursor
        ((logAfter readInt loads t before).log.select filter.Matches) := by
  -- on the walk: the pages after the first are a walk over the log that the first one leaves
  induction hwalk generalizing t served with
  | @last number q vtf cursor response hfilter hcursor hnext =>
    subst hfilter hcursor
    obtain ⟨before, after, rfl⟩ := List.append_of_mem (List.singleton_sublist.mp hpages)
    refine ⟨before, _, after, rfl, rfl, ?_⟩
    obtain ⟨hevents, hpage⟩ := events_of_answers (answers_append_iff.mp hserved).2
    rw [hnext, hevents] at hpage
    rw [hevents, Keyset.page_of_nextCursor_none (one_le_pageSize _) hpage.symm]
  | @next number q vtf cursor c response pages out hfilter hcursor hnext hrest ih =>
    subst hfilter hcursor
    obtain ⟨early, late, rfl, hmem, hsub⟩ := List.cons_sublist_iff.mp hpages
    obtain ⟨before, after, rfl⟩ := List.append_of_mem hmem
    obtain ⟨hearly, hlate⟩ := answers_append_iff.mp hserved
    obtain ⟨before', last, after', rfl, hlast, rfl⟩ := ih hsub hlate
    set first : Served β := ⟨number, .read (.listEvents q) vtf, .ok (.events response)⟩ with hfirst
    refine ⟨before ++ first :: after ++ before', last, after', by simp, ?_, ?_⟩
    · rw [List.getLast?_cons, hlast]
      rfl
    obtain ⟨hevents, hpage⟩ := events_of_answers (answers_append_iff.mp hearly).2
    rw [hnext, hevents] at hpage
    -- whatever is served between two pages, the log only grows
    have hgrows : (logAfter readInt loads t before).log.entries <+:
        (logAfter readInt loads t (before ++ first :: after ++ before')).log.entries := by
      rw [List.append_assoc, logAfter_append]
      exact LogState.entries_performAll readInt loads _ _
    rw [hevents, ← logAfter_append]
    exact Keyset.page_append_rest (EventLog.sorted_select _ _) (hgrows.filter _) hpage.symm

end

/-- **A walk is one read.** In every run over the in-memory repository, a client that goes through
`GET /events` page by page, while any other requests are served in between, collects exactly what
the log has, from its first cursor on, when it is given its last page: an event that is
acknowledged before then is not left out, and none comes twice or out of order. -/
theorem walk_is_one_read {app : AppState} {start : InMemoryEventRepository} {ttl clock : ℚ}
    {acts : List (Action β)} {s : Service InMemoryEventRepository β}
    (hrun : run (step hashPrefix readInt loads) (init app start ttl clock) acts = some s)
    {filter : EventFilter} {cursor : Option ℤ} {pages : List (Served β)} {out : List StoredEvent}
    (hwalk : Walk filter cursor pages out) (hpages : pages.Sublist s.served) :
    ∃ before last after, s.served = before ++ last :: after ∧ pages.getLast? = some last ∧
      out = Keyset.rest StoredEvent.id cursor
        ((logAfter readInt loads start.state before).log.select filter.Matches) :=
  hwalk.eq_rest hpages (congrArg Prod.fst (replays_of_run hrun).state)

/-- Any token may read. -/
def openToRead : AppState := lifespan {} { readAuth := some (.staticPrincipal ⟨"u", none⟩) }

/-- Three numbers. -/
def smallInt (s : String) : Except String ℤ :=
  if s = "1" then .ok 1 else if s = "2" then .ok 2 else if s = "3" then .ok 3
  else .error "int_parsing"

/-- A client reads page by page; an event is posted before its first page and another after. -/
def walkActs : List (Action Unit) :=
  let post := AppRequest.postEvents (some (finishedRun 70).modelDump)
  let page fromId := AppRequest.get (.listEvents [("from_id", fromId), ("limit", "1")])
  [.arrive (some "changeme") post 0, .arrive none (page "1") 0, .arrive (some "changeme") post 0,
    .arrive none (page "2") 0, .arrive none (page "3") 0]

/-- A page of one event at most. -/
def smallPage (number fromId : ℕ) (events : List StoredEvent) (nextFromId : Option ℤ) :
    Served Unit :=
  let q : EventQuery :=
    ⟨none, none, none, none, none, defaultOrgId, some fromId, 1, by simp, by decide⟩
  ⟨number, .read (.listEvents q) none,
    .ok (.events { events, nextFromId, filterApplied := q.filterApplied })⟩

theorem walk_is_one_read_two :
    ∃ s, run (step id smallInt fun _ : Unit => .ok .null)
        (init openToRead InMemoryEventRepository.init 60 0) walkActs = some s ∧
      ∃ before last after, s.served = before ++ last :: after ∧
        [⟨1, finishedRun 70⟩] ++ ([⟨2, finishedRun 70⟩] ++ []) =
          Keyset.rest StoredEvent.id (some 1)
            ((logAfter smallInt (fun _ => .ok .null) InMemoryEventRepository.init.state
              before).log.select (EventFilter.Matches { orgId := some defaultOrgId })) := by
  obtain ⟨s, hrun, hserved⟩ : ∃ s, run (step id smallInt fun _ : Unit => .ok .null)
        (init openToRead InMemoryEventRepository.init 60 0) walkActs = some s ∧
      s.served = [⟨0, .append (finishedRun 70), .created 1⟩,
        smallPage 1 1 [⟨1, finishedRun 70⟩] (some 2), ⟨2, .append (finishedRun 70), .created 2⟩,
        smallPage 3 2 [⟨2, finishedRun 70⟩] (some 3), smallPage 4 3 [] none] := ⟨_, rfl, rfl⟩
  have hthird : Walk { orgId := some defaultOrgId } (some 3) [smallPage 4 3 [] none] [] :=
    .last rfl rfl rfl
  have hsecond : Walk { orgId := some defaultOrgId } (some 2)
      (smallPage 3 2 [⟨2, finishedRun 70⟩] (some 3) :: [smallPage 4 3 [] none])
      ([⟨2, finishedRun 70⟩] ++ []) := .next rfl rfl rfl hthird
  have hfirst : Walk { orgId := some defaultOrgId } (some 1)
      (smallPage 1 1 [⟨1, finishedRun 70⟩] (some 2) ::
        (smallPage 3 2 [⟨2, finishedRun 70⟩] (some 3) :: [smallPage 4 3 [] none]))
      ([⟨1, finishedRun 70⟩] ++ ([⟨2, finishedRun 70⟩] ++ [])) := .next rfl rfl rfl hsecond
  have hpages := hserved ▸ List.Sublist.cons _
    (.cons_cons _ (.cons _ (.cons_cons _ (.cons_cons _ .slnil))))
  obtain ⟨before, last, after, hsplit, -, hout⟩ := walk_is_one_read hrun hfirst hpages
  exact ⟨s, hrun, before, last, after, hsplit, hout⟩

end Service

end Vfobs
