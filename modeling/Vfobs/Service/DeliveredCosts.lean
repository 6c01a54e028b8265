import Vfobs.Repositories.CostHistory
import Vfobs.Service.Delivery

/-!
# From the reports of an emitter to the cost

A cost endpoint answers with what the log has of a scope: for each task the summary that has been
stored last (`CostAggregationStrategy.costOf`, `EventLog.cost_eq_costOf`). Where an emitter is the
only client with events of the scope, that is what it has delivered, in the order of the arrivals.

`cost_follows_delivery`: so a report that is dropped or lost is missing, and one that arrives after
a later one of its task takes its place again; but when no POST has failed, the cost is that of the
emissions which the deque has not dropped, in the order of emission.
-/

namespace Vfobs

open StepSystem

/-- What a predicate leaves of a list, with others in between that do not satisfy it. -/
theorem filter_eq_of_perm_append {α : Type} {l m s : List α} {p : α → Bool} (hsub : l.Sublist s)
    (hperm : s.Perm (l ++ m)) (hm : ∀ a ∈ m, ¬ p a) : s.filter p = l.filter p := by
  have hnone : m.filter p = [] := List.filter_eq_nil_iff.mpr hm
  refine ((hsub.filter p).eq_of_length ?_).symm
  rw [(hperm.filter p).length_eq, List.filter_append, hnone, List.append_nil]

/-! ### The cost of events -/

namespace CostAggregationStrategy

variable (strategy : CostAggregationStrategy)

/-- The last summaries of the tasks that have reported. -/
def lastReports (reported : List Event) : List ExecutionSummary :=
  (reported.filterMap fun e => e.taskId).dedup.filterMap (lastSummary none none reported)

/-- What the cost endpoints say of events, in the order in which they are reported: a `404` where
none is of the scope, and otherwise the sums over the last summaries of the tasks. -/
def costOf (events : List Event) : Except PyException CostSummary :=
  let reported := events.filter fun e => strategy.Covers e
  if reported = [] then .error (.http 404 "no events for this scope")
  else .ok (exactSummary (lastReports reported))

/-- Events of other scopes do not count. -/
theorem costOf_congr {events events' : List Event}
    (h : (events.filter fun e => strategy.Covers e) = events'.filter fun e => strategy.Covers e) :
    strategy.costOf events = strategy.costOf events' := by
  simp only [costOf, h]

/-- The latest summaries of a log are the last ones of the tasks that have reported. -/
theorem summaries_perm (log : EventLog) :
    (strategy.summaries log).Perm
      (lastReports (log.events.filter fun e => strategy.Covers e)) := by
  set reported := log.events.filter fun e => strategy.Covers e with hreported
  have hscope : ∀ workgraphId agentId : Option String,
      (∀ e, BearsSummary workgraphId agentId e ↔ BearsSummary none none e ∧ strategy.Covers e) →
        (log.latestSummaries workgraphId agentId).Perm (lastReports reported) := by
    intro workgraphId agentId hbears
    have hlast : lastSummary workgraphId agentId log.events = lastSummary none none reported := by
      funext t
      rw [lastSummary, lastSummary, hreported, List.filter_filter]
      simp only [hbears, Bool.decide_and]
    rw [lastReports, ← hlast]
    refine log.latestSummaries_perm_filterMap (List.nodup_dedup _) fun e he hsummary t ht => ?_
    refine List.mem_dedup.mpr (List.mem_filterMap.mpr ⟨e, ?_, ht⟩)
    exact List.mem_filter.mpr ⟨he, decide_eq_true ((hbears e).mp hsummary).2⟩
  cases strategy with
  | byWorkgraph w => exact hscope (some w) none fun e => by simp [BearsSummary, Covers, and_assoc]
  | byAgent a => exact hscope none (some a) fun e => by simp [BearsSummary, Covers, and_assoc]

end CostAggregationStrategy

/-- **A log costs what its events do.** -/
theorem EventLog.cost_eq_costOf (log : EventLog) (strategy : CostAggregationStrategy) :
    log.cost strategy = strategy.costOf log.events := by
  have hnone : (log.events.filter fun e => strategy.Covers e) = [] ↔
      ¬ ∃ se ∈ log.entries, strategy.Covers se.event := by
    rw [List.filter_eq_nil_iff]
    simp [EventLog.events]
  rw [EventLog.cost, CostAggregationStrategy.costOf,
    exactSummary_perm (strategy.summaries_perm log)]
  by_cases hscope : ∃ se ∈ log.entries, strategy.Covers se.event
  · rw [if_pos hscope, if_neg fun h => hnone.mp h hscope]
  · rw [if_neg hscope, if_pos (hnone.mpr hscope)]

/-- What a cost endpoint answers over the in-memory repository. -/
theorem InMemoryEventRepository.run_eq_costOf (repo : InMemoryEventRepository)
    (strategy : CostAggregationStrategy) :
    strategy.run repo repo = strategy.costOf repo.log.events := by
  rw [← EventLog.cost_eq_costOf]
  refine CostAggregationStrategy.run_of_rollsUp repo.represents ?_
  cases strategy with
  | byWorkgraph w => exact repo.rollsUp (.workgraphCost w)
  | byAgent a => exact repo.rollsUp (.agentCost a)

/-! ### From end to end -/

namespace Deployment

variable {β : Type} {token principal : String} {hashPrefix : String → String}
  {readInt : String → Except String ℤ} {loads : β → Except PyException Json} {queueMax : ℕ}
  {app : AppState} {start : InMemoryEventRepository} {ttl clock : ℚ} {acts : List (Action β)}
  {d : Deployment InMemoryEventRepository β}

/-- **The cost follows the delivery.** After any run in which neither the start nor others have
events of a scope, its cost is that of the events that have been delivered, in the order in which
they have arrived. When no POST has failed and the drain has finished, it is that of the emissions
that the deque has neither dropped nor kept, in the order of emission. -/
theorem cost_follows_delivery (hauth : app.getPrincipal (some token) = .ok principal)
    (hrun : run (step token hashPrefix readInt loads) (init queueMax app start ttl clock) acts =
      some d) (strategy : CostAggregationStrategy)
    (hstart : ∀ se ∈ start.log.entries, ¬ strategy.Covers se.event)
    (hothers : ∀ event ∈ d.others.filterMap Operation.event?, ¬ strategy.Covers event) :
    strategy.run d.service.repo d.service.repo =
        strategy.costOf (d.delivered.map fun e => e.event.received) ∧
      (.emitter (.postEnds false) ∉ acts → d.client.emitter.drain = .finished →
        strategy.run d.service.repo d.service.repo =
          strategy.costOf ((d.client.emitted.filter fun e =>
            e.seq ∉ (d.client.dropped ++ d.client.emitter.q).map Emission.seq).map
              fun e => e.event.received)) := by
  obtain ⟨stored, hentries, hsub, hperm⟩ := exists_stored hauth hrun
  have hevents : d.service.repo.log.events = start.log.events ++ stored.map StoredEvent.event := by
    rw [EventLog.events, hentries, List.map_append, EventLog.events]
  -- nothing but what is delivered is of the scope
  have hscope : (d.service.repo.log.events.filter fun e => strategy.Covers e) =
      (d.delivered.map fun e => e.event.received).filter fun e => strategy.Covers e := by
    have hnone : (start.log.events.filter fun e => strategy.Covers e) = [] := by
      refine List.filter_eq_nil_iff.mpr fun e he => ?_
      obtain ⟨se, hse, rfl⟩ := List.mem_map.mp he
      simpa using hstart se hse
    rw [hevents, List.filter_append, hnone, List.nil_append]
    exact filter_eq_of_perm_append hsub hperm fun e he => by simpa using hothers e he
  have hcost := (d.service.repo.run_eq_costOf strategy).trans (strategy.costOf_congr hscope)
  exact ⟨hcost, fun hacts hfin => delivered_of_finished hacts hrun hfin ▸ hcost⟩

/-- A report of a task. -/
def report (totalTokens : ℤ) : Sdk.Event where
  v := 1
  workgraphId := "wg"
  taskId := some "t"
  agentId := none
  traceId := none
  source := "sdk"
  timestamp := Sdk.midnightAt 0 (by decide)
  classification := .internal
  orgId := "viloforge"
  clusterId := "vafi-dev"
  data := .taskStateChanged ⟨"doing", "done", some ⟨none, some totalTokens, none⟩⟩
  stripped := by
    have hstrip : ∀ s ∈ ["wg", "t", "sdk", "viloforge", "vafi-dev"], strip s = s := by decide
    simp [Sdk.Envelope.strip, hstrip]
  nonempty := by decide

/-- Of two reports of a task, the first arrives last, and is what counts. -/
theorem cost_follows_delivery_late :
    ∃ d, run (step "changeme" id (fun _ => .error "int_parsing") fun _ : Unit => .ok .null)
        (init 2 Service.deployed InMemoryEventRepository.init 60 0)
        (lateArrival (report 70) (report 99)) = some d ∧
      ∃ summary, (CostAggregationStrategy.byWorkgraph "wg").run d.service.repo d.service.repo =
        .ok summary ∧ summary.totalTokens = 70 := by
  obtain ⟨d, hrun, hdelivered, hothers⟩ : ∃ d,
      run (step "changeme" id (fun _ => .error "int_parsing") fun _ : Unit => .ok .null)
          (init 2 Service.deployed InMemoryEventRepository.init 60 0)
          (lateArrival (report 70) (report 99)) = some d ∧
        d.delivered = [⟨1, report 99⟩, ⟨0, report 70⟩] ∧ d.others = [] := ⟨_, rfl, rfl, rfl⟩
  have hcost := (cost_follows_delivery rfl hrun (.byWorkgraph "wg")
    (fun se hse => absurd hse List.not_mem_nil) (by simp [hothers])).1
  rw [hdelivered] at hcost
  exact ⟨d, hrun, _, hcost, rfl⟩

end Deployment

end Vfobs
