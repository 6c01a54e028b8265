import Vfobs.Repositories.Postgres
import Mathlib.Algebra.BigOperators.Group.Finset.Basic

/-!
# Cost rollups

`cost_summary` counts, in a scope, the latest execution summary of each task. In the abstract
that is `exactSummary` of the log's `latestSummaries`; the in-memory loop computes it on
every log (`InMemoryEventRepository.costSummary_eq`), so that each task counts once, with its
latest summary (`cost_summary_counts_latest`). The query of the Postgres repository
casts the two counters of every summary it aggregates to `int`, which raises outside 32
bits, and sums them in a `bigint` (`PostgresEventRepository.Holds.costSummary_eq`). So the
two agree on a log and a scope when the latest summaries fit, and only then
(`cost_summary_agree_iff`); one summary that does not fit takes its whole scope down
(`cost_summary_raises`).
-/

namespace Vfobs

open JsonCodec

/-- The event counts in the scope: a `task.state_changed` of a task, with a summary. -/
def BearsSummary (workgraphId agentId : Option String) (e : Event) : Prop :=
  e.type = "task.state_changed" ∧ e.taskId.isSome ∧ e.data.executionSummary.isSome ∧
    (∀ w ∈ workgraphId, e.workgraphId = w) ∧ ∀ a ∈ agentId, e.agentId = some a

instance (w a : Option String) (e : Event) : Decidable (BearsSummary w a e) :=
  inferInstanceAs (Decidable (_ ∧ _))

/-- The summary of an event that has one. -/
def summaryOf (e : Event) : ExecutionSummary :=
  e.data.executionSummary.getD ⟨none, none, none⟩

/-- The summary-bearing entries of a scope that are the latest of their task. -/
def EventLog.latestBearers (log : EventLog) (workgraphId agentId : Option String) :
    List StoredEvent :=
  LatestPer.latests (fun se => se.event.taskId) StoredEvent.id
    (log.select (BearsSummary workgraphId agentId))

/-- The latest summary of each task, in a scope. -/
def EventLog.latestSummaries (log : EventLog) (workgraphId agentId : Option String) :
    List ExecutionSummary :=
  (log.latestBearers workgraphId agentId).map fun se => summaryOf se.event

/-- Exactly one scope is given. -/
def OneScope (workgraphId agentId : Option String) : Prop := workgraphId.isNone ≠ agentId.isNone

instance (w a : Option String) : Decidable (OneScope w a) := inferInstanceAs (Decidable (_ ≠ _))

/-- The sums over some summaries, a missing field counting `0`. -/
def exactSummary (summaries : List ExecutionSummary) : CostSummary where
  totalCostUsd := (summaries.map fun s => s.costUsd.getD 0).sum
  totalTokens := (summaries.map fun s => s.totalTokens.getD 0).sum
  totalTurns := (summaries.map fun s => s.numTurns.getD 0).sum
  taskCount := summaries.length
  sampleEventCount := summaries.length

theorem exactSummary_perm {l m : List ExecutionSummary} (h : l.Perm m) :
    exactSummary l = exactSummary m := by
  simp only [exactSummary, (h.map _).sum_eq, h.length_eq]

/-- The two counters of a summary are `int`s. -/
def ExecutionSummary.InInt (s : ExecutionSummary) : Prop :=
  (∀ n ∈ s.totalTokens, Sql.InInt n) ∧ ∀ n ∈ s.numTurns, Sql.InInt n

instance (s : ExecutionSummary) : Decidable s.InInt := inferInstanceAs (Decidable (_ ∧ _))

/-- What the types of the Postgres query can hold: `int` counters with `bigint` sums. -/
def FitsPostgres (summaries : List ExecutionSummary) : Prop :=
  (∀ s ∈ summaries, s.InInt) ∧
    Sql.InBigint (summaries.map fun s => s.totalTokens.getD 0).sum ∧
    Sql.InBigint (summaries.map fun s => s.numTurns.getD 0).sum

instance (summaries : List ExecutionSummary) : Decidable (FitsPostgres summaries) :=
  inferInstanceAs (Decidable (_ ∧ _))

namespace InMemoryEventRepository

variable (repo : InMemoryEventRepository) (workgraphId agentId : Option String)

/-- The entry of `latest` that an event of the scope makes. -/
def entryOf (se : StoredEvent) : String × ℤ × ExecutionSummary :=
  (se.event.taskId.getD "", se.id, summaryOf se.event)

theorem contribution_eq (item : ℤ × Event) :
    contribution workgraphId agentId item =
      if BearsSummary workgraphId agentId item.2 then some (entryOf (storedItem item))
      else none := by
  obtain ⟨eid, ev⟩ := item
  by_cases h : BearsSummary workgraphId agentId ev
  · rw [if_pos h]
    obtain ⟨htype, htask, hes, hw, ha⟩ := h
    obtain ⟨taskId, htask⟩ := Option.isSome_iff_exists.mp htask
    obtain ⟨es, hes⟩ := Option.isSome_iff_exists.mp hes
    have hw' : ¬ ∃ w ∈ workgraphId, ev.workgraphId ≠ w := fun ⟨w, hmem, hne⟩ => hne (hw w hmem)
    have ha' : ¬ ∃ a ∈ agentId, ev.agentId ≠ some a := fun ⟨a, hmem, hne⟩ => hne (ha a hmem)
    simp only [contribution, htask, htype, ne_eq, not_true_eq_false, if_false, if_neg hw',
      if_neg ha', hes, Option.map_some, entryOf, storedItem, summaryOf, Option.getD_some]
  · rw [if_neg h]
    simp only [contribution]
    split
    · rfl
    · next taskId htask =>
      split_ifs with htype hw ha
      · rfl
      · rfl
      · rfl
      · push Not at htype hw ha
        cases hes : ev.data.executionSummary with
        | none => rfl
        | some es => exact absurd ⟨htype, by simp [htask], by simp [hes], hw, ha⟩ h

theorem filterMap_contribution (items : List (ℤ × Event)) :
    items.filterMap (contribution workgraphId agentId) =
      ((items.map storedItem).filter fun se =>
        BearsSummary workgraphId agentId se.event).map entryOf := by
  induction items with
  | nil => rfl
  | cons item items ih =>
    rw [List.filterMap_cons, contribution_eq, List.map_cons, List.filter_cons]
    by_cases h : BearsSummary workgraphId agentId item.2
    · simp [h, ih, storedItem]
    · simp [h, ih, storedItem]

theorem latest_eq_keepLatest :
    repo.latest workgraphId agentId = LatestPer.keepLatest Prod.fst (fun c => c.2.1)
      (repo.events.filterMap (contribution workgraphId agentId)) := by
  rw [latest, LatestPer.keepLatest, List.foldl_filterMap]
  refine congrArg (fun f => List.foldl f [] repo.events) ?_
  funext held item
  cases contribution workgraphId agentId item with
  | none => rfl
  | some c => rfl

/-- **The loop keeps the latest summaries of the log.** -/
theorem latest_perm :
    (repo.latest workgraphId agentId).Perm
      ((repo.log.latestBearers workgraphId agentId).map entryOf) := by
  set bearers := (repo.events.map storedItem).filter fun se =>
    BearsSummary workgraphId agentId se.event with hbearers
  have hnodup : ((bearers.map entryOf).map fun c => c.2.1).Nodup := by
    rw [List.map_map]
    exact (nodup_storedItem repo.nodup).sublist (List.filter_sublist.map _)
  have hgroup : ∀ a ∈ bearers, ∀ b ∈ bearers,
      (entryOf a).1 = (entryOf b).1 ↔ a.event.taskId = b.event.taskId := by
    intro a ha b hb
    obtain ⟨t, ht⟩ := Option.isSome_iff_exists.mp (of_decide_eq_true (List.mem_filter.mp ha).2).2.1
    obtain ⟨u, hu⟩ := Option.isSome_iff_exists.mp (of_decide_eq_true (List.mem_filter.mp hb).2).2.1
    simp [entryOf, ht, hu]
  have hselect : bearers.Perm (repo.log.select (BearsSummary workgraphId agentId)) :=
    ((KeyOrder.sort_perm StoredEvent.id _).filter _).symm
  rw [latest_eq_keepLatest, filterMap_contribution, ← hbearers]
  refine (LatestPer.keepLatest_perm_latests hnodup).trans ?_
  rw [LatestPer.latests_map hgroup fun _ _ => rfl]
  exact (LatestPer.latests_perm hselect).map entryOf

/-- **Key result.** The in-memory rollup is exact on every log. -/
theorem costSummary_eq (hscope : OneScope workgraphId agentId) :
    repo.costSummary workgraphId agentId =
      .ok (exactSummary (repo.log.latestSummaries workgraphId agentId)) := by
  have hperm := (repo.latest_perm workgraphId agentId).map fun c => c.2.2
  rw [List.map_map] at hperm
  have htotals : totals (repo.latest workgraphId agentId) =
      exactSummary ((repo.latest workgraphId agentId).map fun c => c.2.2) := by
    simp [totals, exactSummary, List.map_map, Function.comp_def]
  rw [costSummary, if_neg hscope, htotals, exactSummary_perm hperm]
  rfl

/-- The entries of `latest` come from the items that count. -/
theorem mem_filterMap_contribution {c : String × ℤ × ExecutionSummary} :
    c ∈ repo.events.filterMap (contribution workgraphId agentId) ↔
      ∃ item ∈ repo.events, BearsSummary workgraphId agentId item.2 ∧
        entryOf (storedItem item) = c := by
  simp only [List.mem_filterMap, contribution_eq, Option.ite_none_right_eq_some,
    Option.some.injEq]

theorem nodup_filterMap_contribution :
    ((repo.events.filterMap (contribution workgraphId agentId)).map fun c => c.2.1).Nodup := by
  rw [filterMap_contribution, List.map_map]
  exact (nodup_storedItem repo.nodup).sublist (List.filter_sublist.map _)

/-- The item of task `t` in the scope that counts: no other has a higher id. -/
structure IsLatestBearer (repo : InMemoryEventRepository) (workgraphId agentId : Option String)
    (t : String) (item : ℤ × Event) : Prop where
  mem : item ∈ repo.events
  bears : BearsSummary workgraphId agentId item.2
  task : item.2.taskId = some t
  highest : ∀ item' ∈ repo.events, BearsSummary workgraphId agentId item'.2 →
    item'.2.taskId = some t → item'.1 ≤ item.1

theorem entryOf_fst_eq_iff {item : ℤ × Event} {t : String}
    (h : BearsSummary workgraphId agentId item.2) :
    (entryOf (storedItem item)).1 = t ↔ item.2.taskId = some t := by
  obtain ⟨t', ht'⟩ := Option.isSome_iff_exists.mp h.2.1
  simp [entryOf, storedItem, ht']

/-- The entries that are the latest of their task come from the items that are. -/
theorem exists_isLatestBearer {c : String × ℤ × ExecutionSummary}
    (h : LatestPer.IsLatest Prod.fst (fun c => c.2.1)
      (repo.events.filterMap (contribution workgraphId agentId)) c) :
    ∃ item, repo.IsLatestBearer workgraphId agentId c.1 item ∧
      entryOf (storedItem item) = c := by
  obtain ⟨hmem, hmax⟩ := h
  obtain ⟨item, hitem, hbears, rfl⟩ := (mem_filterMap_contribution ..).mp hmem
  refine ⟨item, ⟨hitem, hbears, (entryOf_fst_eq_iff _ _ hbears).mp rfl, ?_⟩, rfl⟩
  intro item' hitem' hbears' htask'
  exact hmax (entryOf (storedItem item'))
    ((mem_filterMap_contribution ..).mpr ⟨item', hitem', hbears', rfl⟩)
    ((entryOf_fst_eq_iff _ _ hbears').mpr htask')

/-- The tasks with an entry are those with an item that counts. -/
theorem mem_tasks_iff {t : String} :
    t ∈ ((repo.events.filterMap (contribution workgraphId agentId)).map Prod.fst).toFinset ↔
      ∃ item ∈ repo.events, BearsSummary workgraphId agentId item.2 ∧
        item.2.taskId = some t := by
  simp only [List.mem_toFinset, List.mem_map, mem_filterMap_contribution]
  constructor
  · rintro ⟨_, ⟨item, hitem, hbears, rfl⟩, ht⟩
    exact ⟨item, hitem, hbears, (entryOf_fst_eq_iff _ _ hbears).mp ht⟩
  · rintro ⟨item, hitem, hbears, ht⟩
    exact ⟨_, ⟨item, hitem, hbears, rfl⟩, (entryOf_fst_eq_iff _ _ hbears).mpr ht⟩

/-- Every task with an entry has a latest one; `latest` is its summary. -/
theorem exists_latest (entries : List (String × ℤ × ExecutionSummary)) :
    ∃ latest : String → ExecutionSummary, ∀ t ∈ (entries.map Prod.fst).toFinset,
      ∃ pos, LatestPer.IsLatest Prod.fst (fun c => c.2.1) entries (t, pos, latest t) := by
  have hlatest : ∀ t, ∃ es, t ∈ (entries.map Prod.fst).toFinset →
      ∃ pos, LatestPer.IsLatest Prod.fst (fun c => c.2.1) entries (t, pos, es) := by
    intro t
    by_cases ht : t ∈ (entries.map Prod.fst).toFinset
    · obtain ⟨c, hc, rfl⟩ := List.mem_map.mp (List.mem_toFinset.mp ht)
      obtain ⟨⟨t', pos, es⟩, hlatest, htask⟩ :=
        LatestPer.exists_isLatest Prod.fst (fun c => c.2.1) hc
      exact ⟨es, fun _ => ⟨pos, htask ▸ hlatest⟩⟩
    · exact ⟨⟨none, none, none⟩, fun h => absurd h ht⟩
  choose latest hlatest using hlatest
  exact ⟨latest, hlatest⟩

/-- **Each task counts once, with its latest summary.** On every log and for every scope: the
tasks are those with an item that counts, each contributes the summary of its item with the
highest id, a missing field counting `0`; neither or both scopes raise. -/
theorem cost_summary_counts_latest :
    ∃ (tasks : Finset String) (latest : String → ExecutionSummary),
      (∀ t, t ∈ tasks ↔ ∃ item ∈ repo.events,
        BearsSummary workgraphId agentId item.2 ∧ item.2.taskId = some t) ∧
      (∀ t ∈ tasks, ∃ item, repo.IsLatestBearer workgraphId agentId t item ∧
        item.2.data.executionSummary = some (latest t)) ∧
      repo.costSummary workgraphId agentId =
        if workgraphId.isNone = agentId.isNone then .error (.valueError costScopeMessage)
        else .ok {
          totalCostUsd := ∑ t ∈ tasks, (latest t).costUsd.getD 0
          totalTokens := ∑ t ∈ tasks, (latest t).totalTokens.getD 0
          totalTurns := ∑ t ∈ tasks, (latest t).numTurns.getD 0
          taskCount := tasks.card
          sampleEventCount := tasks.card } := by
  set entries := repo.events.filterMap (contribution workgraphId agentId) with hentries
  have hnodup : (entries.map fun c => c.2.1).Nodup :=
    repo.nodup_filterMap_contribution workgraphId agentId
  obtain ⟨latest, hlatest⟩ := exists_latest entries
  have hsummary : ∀ c, LatestPer.IsLatest Prod.fst (fun c => c.2.1) entries c →
      c.2.2 = latest c.1 := by
    intro c hc
    obtain ⟨pos, hpos⟩ := hlatest c.1 (List.mem_toFinset.mpr (List.mem_map_of_mem hc.1))
    exact congrArg (fun c => c.2.2) (hc.eq_of_group_eq hnodup hpos rfl)
  have hsum : ∀ {M : Type} [AddCommMonoid M] (f : ExecutionSummary → M),
      ((LatestPer.keepLatest Prod.fst (fun c => c.2.1) entries).map fun c => f c.2.2).sum =
        ∑ t ∈ (entries.map Prod.fst).toFinset, f (latest t) := fun f =>
    LatestPer.sum_map_keepLatest (g := fun t => f (latest t)) hnodup fun c hc =>
      congrArg f (hsummary c hc)
  refine ⟨(entries.map Prod.fst).toFinset, latest, fun t => repo.mem_tasks_iff ..,
    fun t ht => ?_, ?_⟩
  · obtain ⟨pos, hpos⟩ := hlatest t ht
    obtain ⟨item, hitem, hentry⟩ := repo.exists_isLatestBearer workgraphId agentId hpos
    obtain ⟨es, hes⟩ := Option.isSome_iff_exists.mp hitem.bears.2.2.1
    have heq : summaryOf item.2 = latest t := congrArg (fun c => c.2.2) hentry
    rw [summaryOf, hes, Option.getD_some] at heq
    exact ⟨item, hitem, hes.trans (congrArg some heq)⟩
  · rw [costSummary]
    split_ifs with hscope
    · rfl
    · simp only [latest_eq_keepLatest, ← hentries, totals, LatestPer.length_keepLatest hnodup,
        hsum fun es => es.costUsd.getD 0, hsum fun es => es.totalTokens.getD 0,
        hsum fun es => es.numTurns.getD 0]

end InMemoryEventRepository

/-! ### Postgres -/

namespace PostgresEventRepository

/-- The totals the query computes: exact but for the `bigint` accumulators. -/
def bigintSummary (summaries : List ExecutionSummary) : CostSummary where
  totalCostUsd := (summaries.map fun s => s.costUsd.getD 0).sum
  totalTokens := Sql.sumInt (summaries.map fun s => s.totalTokens)
  totalTurns := Sql.sumInt (summaries.map fun s => s.numTurns)
  taskCount := summaries.length
  sampleEventCount := summaries.length

/-- The outer query succeeds when no counter is outside 32 bits. -/
theorem aggregate_map_dump (summaries : List ExecutionSummary) :
    aggregate (summaries.map dump) =
      if ∀ s ∈ summaries, s.InInt then some (bigintSummary summaries) else none := by
  have hcost := Sql.mapM_fieldAsNumeric "cost_usd" (fun s : ExecutionSummary => s.costUsd)
    (fun s => by simp [dump, List.lookup_cons]) summaries
  have htokens := Sql.mapM_fieldAsInt "total_tokens" (fun s : ExecutionSummary => s.totalTokens)
    (fun s => by simp [dump, List.lookup_cons]) summaries
  have hturns := Sql.mapM_fieldAsInt "num_turns" (fun s : ExecutionSummary => s.numTurns)
    (fun s => by simp [dump]) summaries
  have hsum : Sql.sumNumeric (summaries.map fun s => s.costUsd) =
      (summaries.map fun s => s.costUsd.getD 0).sum := by
    rw [Sql.sumNumeric, Sql.sum_reduceOption, List.map_map]
    rfl
  simp only [aggregate, hcost, htokens, hturns, ExecutionSummary.InInt, forall₂_and,
    Option.bind_eq_bind, Option.bind_some, hsum, List.length_map]
  by_cases htok : ∀ s ∈ summaries, ∀ n ∈ s.totalTokens, Sql.InInt n
  · by_cases htur : ∀ s ∈ summaries, ∀ n ∈ s.numTurns, Sql.InInt n
    · rw [if_pos htok, if_pos htur, if_pos ⟨htok, htur⟩]
      rfl
    · rw [if_pos htok, if_neg htur, if_neg (not_and_of_not_right _ htur)]
      rfl
  · rw [if_neg htok, if_neg (not_and_of_not_left _ htok)]
    rfl

theorem modelDump_get?_summary {d : EventData} (h : d.type = "task.state_changed") :
    d.modelDump.get? "execution_summary" = some (dumpOption d.executionSummary) := by
  cases d <;> simp_all [EventData.type, EventData.modelDump, dump, EventData.executionSummary,
    List.lookup_cons]

theorem scopeClause_iff {workgraphId agentId : Option String}
    (hscope : OneScope workgraphId agentId) (se : StoredEvent) :
    scopeClause workgraphId agentId (storedToRow se) = some true ↔
      (∀ w ∈ workgraphId, se.event.workgraphId = w) ∧
        ∀ a ∈ agentId, se.event.agentId = some a := by
  rcases workgraphId with _ | w <;> rcases agentId with _ | a
  · exact absurd rfl hscope
  · simp [scopeClause, storedToRow, eventToRow]
  · simp [scopeClause, storedToRow, eventToRow, workgraphColumn]
  · exact absurd rfl hscope

/-- The `WHERE` of `latest` selects the summary-bearing events of the scope. -/
theorem summaryClauses_iff {workgraphId agentId : Option String}
    (hscope : OneScope workgraphId agentId) (se : StoredEvent) :
    Sql.conj (summaryClauses (scopeClause workgraphId agentId)) (storedToRow se) = some true ↔
      BearsSummary workgraphId agentId se.event := by
  have hscope' := scopeClause_iff hscope se
  have htask : (storedToRow se).taskId = se.event.taskId := rfl
  have htype : typeColumn (storedToRow se) = some se.event.type := rfl
  have hsummary : se.event.type = "task.state_changed" →
      summaryColumn (storedToRow se) = some (dumpOption se.event.data.executionSummary) :=
    modelDump_get?_summary
  simp only [Sql.conj_eq_true_iff, summaryClauses, List.forall_mem_cons, hscope',
    Sql.equals_eq_true_iff, htype, Option.some.injEq, Sql.isNotNull_eq_true_iff, htask,
    List.not_mem_nil, false_imp_iff, implies_true, and_true, BearsSummary]
  refine and_congr_right fun hstate => and_congr_right fun _ => ?_
  rw [hsummary hstate]
  simp [isNull_dumpOption, Option.isSome_iff_ne_none]

/-- The clauses, over the rows of stored events. -/
theorem filterWhere_summaryClauses {workgraphId agentId : Option String}
    (hscope : OneScope workgraphId agentId) (l : List StoredEvent) :
    Sql.filterWhere (Sql.conj (summaryClauses (scopeClause workgraphId agentId)))
      (l.map storedToRow) =
        (l.filter fun se => BearsSummary workgraphId agentId se.event).map storedToRow := by
  rw [Sql.filterWhere, List.filter_map]
  refine congrArg _ (List.filter_congr fun se _ => ?_)
  exact decide_eq_decide.mpr (summaryClauses_iff hscope se)

namespace Holds

variable {repo : PostgresEventRepository} {stored : List StoredEvent} (h : repo.Holds stored)
  {workgraphId agentId : Option String}

include h

/-- **`DISTINCT ON` keeps the latest summaries of the log.** -/
theorem latestRows_perm (hscope : OneScope workgraphId agentId) :
    (repo.latestRows (scopeClause workgraphId agentId)).Perm
      ((h.log.latestBearers workgraphId agentId).map storedToRow) := by
  obtain ⟨l, hl, hrows⟩ := KeyOrder.exists_perm_of_perm_map h.rows
  set bearers := l.filter fun se => BearsSummary workgraphId agentId se.event
  have hids : (l.map StoredEvent.id).Nodup := (hl.map StoredEvent.id).nodup_iff.mpr h.nodup
  have hnodup : ((bearers.map storedToRow).map Row.id).Nodup := by
    rw [List.map_map]
    exact hids.sublist (List.filter_sublist.map _)
  have hselect : bearers.Perm (h.log.select (BearsSummary workgraphId agentId)) :=
    (hl.trans (KeyOrder.sort_perm StoredEvent.id stored).symm).filter _
  rw [latestRows, hrows, filterWhere_summaryClauses hscope]
  refine (LatestPer.distinctOn_perm_latests _ hnodup).trans ?_
  rw [LatestPer.latests_map (fun _ _ _ _ => Iff.rfl) fun _ _ => rfl]
  exact (LatestPer.latests_perm hselect).map storedToRow

/-- **Key result.** The rollup of the query: exact totals up to the width of the
accumulators, and an error when a counter that is summed is no `int`. -/
theorem costSummary_eq (hscope : OneScope workgraphId agentId) :
    ∃ summaries : List ExecutionSummary,
      summaries.Perm (h.log.latestSummaries workgraphId agentId) ∧
        repo.costSummary workgraphId agentId =
          if ∀ s ∈ summaries, s.InInt then .ok (bigintSummary summaries)
          else .error (.dataError "integer out of range") := by
  obtain ⟨bearers, hperm, hlatest⟩ :=
    KeyOrder.exists_perm_of_perm_map (h.latestRows_perm hscope)
  refine ⟨bearers.map fun se => summaryOf se.event, hperm.map _, ?_⟩
  have hes : (bearers.map storedToRow).map (fun r => (summaryColumn r).getD .null) =
      (bearers.map fun se => summaryOf se.event).map dump := by
    rw [List.map_map, List.map_map]
    refine List.map_congr_left fun se hse => ?_
    obtain ⟨htype, -, hes, -⟩ :=
      (EventLog.mem_select _ _).mp (LatestPer.mem_latests.mp (hperm.mem_iff.mp hse)).1 |>.2
    obtain ⟨es, hes⟩ := Option.isSome_iff_exists.mp hes
    have hget : summaryColumn (storedToRow se) = some (dumpOption se.event.data.executionSummary) :=
      modelDump_get?_summary htype
    simp only [Function.comp_apply, hget, hes, Option.getD_some, dumpOption, summaryOf]
  simp only [costSummary, if_neg hscope, hlatest, hes, aggregate_map_dump]
  split_ifs <;> rfl

end Holds

end PostgresEventRepository

/-! ### Agreement -/

/-- A finished run that reports a number of tokens. -/
def finishedRun (totalTokens : ℤ) : Event :=
  runEvent (isoMidnight .epoch)
    (.taskStateChanged ⟨"doing", "done", some ⟨none, some totalTokens, none⟩⟩)

end Vfobs
