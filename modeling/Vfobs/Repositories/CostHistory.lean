import Vfobs.Repositories.Cost

/-!
# Cost rollups over histories

A rollup is computed from scratch on every request. Here it is read as a function of the
history of stores. All that counts is the last summary that each task has reported in the
scope (`lastSummary`, `EventLog.latestSummaries_perm`), so that

* a store of an event that bears no summary in the scope leaves the rollup alone, and one that
  does puts its summary in the place of the last of its task (`cost_summary_store`);
* the rollup is the same for all interleavings of the events of different tasks, with whatever
  ids they are stored, in either repository (`cost_summary_interleaving`);
* a client that posts an event again before its task has reported anything else changes no
  rollup (`cost_summary_retry`).
-/

namespace Vfobs

/-- The events of a log, in the order of their ids. -/
def EventLog.events (log : EventLog) : List Event := log.entries.map StoredEvent.event

/-- The last summary that a task has reported in a scope. -/
def lastSummary (workgraphId agentId : Option String) (events : List Event) (taskId : String) :
    Option ExecutionSummary :=
  (LatestPer.lastOf (fun e : Event => e.taskId) (some taskId)
    (events.filter fun e => BearsSummary workgraphId agentId e)).map summaryOf

variable {workgraphId agentId : Option String}

theorem lastSummary_concat (events : List Event) (event : Event) (taskId : String) :
    lastSummary workgraphId agentId (events ++ [event]) taskId =
      if BearsSummary workgraphId agentId event ∧ event.taskId = some taskId then
        some (summaryOf event)
      else lastSummary workgraphId agentId events taskId := by
  rw [lastSummary, List.filter_append, List.filter_singleton]
  by_cases hbears : BearsSummary workgraphId agentId event
  · simp only [hbears, decide_true, cond_true, LatestPer.lastOf_concat, true_and]
    split_ifs <;> rfl
  · simp [hbears, lastSummary]

/-- What comes later is added to both of two histories. -/
theorem lastSummary_append_congr {events events' : List Event} {taskId : String}
    (h : lastSummary workgraphId agentId events taskId =
      lastSummary workgraphId agentId events' taskId) (later : List Event) :
    lastSummary workgraphId agentId (events ++ later) taskId =
      lastSummary workgraphId agentId (events' ++ later) taskId := by
  induction later using List.reverseRecOn with
  | nil => rwa [List.append_nil, List.append_nil]
  | append_singleton later event ih =>
    rw [← List.append_assoc, ← List.append_assoc, lastSummary_concat, lastSummary_concat, ih]

/-- Later events that are no reports of the task do not count. -/
theorem lastSummary_append_of_silent {events silent : List Event} {taskId : String}
    (h : ∀ e ∈ silent, e.taskId = some taskId → ¬ BearsSummary workgraphId agentId e) :
    lastSummary workgraphId agentId (events ++ silent) taskId =
      lastSummary workgraphId agentId events taskId := by
  induction silent using List.reverseRecOn with
  | nil => rw [List.append_nil]
  | append_singleton silent event ih =>
    have hlast : ¬ (BearsSummary workgraphId agentId event ∧ event.taskId = some taskId) :=
      fun hand => h event (by simp) hand.2 hand.1
    rw [← List.append_assoc, lastSummary_concat, if_neg hlast,
      ih fun e he => h e (List.mem_append_left _ he)]

namespace EventLog

variable (log : EventLog)

/-- The last bearer of a task in the log has its last summary. -/
theorem map_lastOf_select (taskId : String) :
    (LatestPer.lastOf (fun se : StoredEvent => se.event.taskId) (some taskId)
      (log.select (BearsSummary workgraphId agentId))).map (fun se => summaryOf se.event) =
        lastSummary workgraphId agentId log.events taskId := by
  rw [lastSummary, LatestPer.lastOf, LatestPer.lastOf, events, List.filter_map, List.filter_map,
    List.getLast?_map, Option.map_map]
  rfl

/-- No bearer is without a task. -/
theorem lastOf_select_none :
    LatestPer.lastOf (fun se : StoredEvent => se.event.taskId) none
      (log.select (BearsSummary workgraphId agentId)) = none := by
  refine LatestPer.lastOf_eq_none_iff.mpr fun se hse htask => ?_
  obtain ⟨-, htask', -⟩ := ((mem_select _ _).mp hse).2
  rw [htask] at htask'
  exact Bool.false_ne_true htask'

/-- **The latest summaries of a log are the last ones of its tasks.** -/
theorem latestSummaries_perm {log log' : EventLog}
    (h : ∀ t, lastSummary workgraphId agentId log.events t =
      lastSummary workgraphId agentId log'.events t) :
    (log.latestSummaries workgraphId agentId).Perm (log'.latestSummaries workgraphId agentId) := by
  refine LatestPer.map_latests_perm (log.sorted_select _) (log'.sorted_select _) fun g => ?_
  cases g with
  | none => rw [lastOf_select_none, lastOf_select_none]
  | some t => rw [map_lastOf_select, map_lastOf_select, h]

/-- The latest summaries of a log, task by task. -/
theorem latestSummaries_perm_filterMap {tasks : List String} (htasks : tasks.Nodup)
    (hall : ∀ e ∈ log.events, BearsSummary workgraphId agentId e → ∀ t ∈ e.taskId, t ∈ tasks) :
    (log.latestSummaries workgraphId agentId).Perm
      (tasks.filterMap (lastSummary workgraphId agentId log.events)) := by
  have hgroups : (tasks.map some).Nodup := htasks.map (Option.some_injective _)
  have hmem : ∀ se ∈ log.select (BearsSummary workgraphId agentId),
      se.event.taskId ∈ tasks.map some := by
    intro se hse
    obtain ⟨hentry, hbears⟩ := (mem_select _ _).mp hse
    obtain ⟨t, ht⟩ := Option.isSome_iff_exists.mp hbears.2.1
    rw [ht]
    exact List.mem_map_of_mem (hall _ (List.mem_map_of_mem hentry) hbears t ht)
  have hperm := LatestPer.latests_perm_filterMap (log.sorted_select _) hgroups hmem
  refine (hperm.map _).trans (.of_eq ?_)
  rw [List.map_filterMap, List.filterMap_map]
  exact List.filterMap_congr fun t _ => map_lastOf_select log t

end EventLog

/-! ### One store -/

instance : Add CostSummary where
  add s s' := {
    totalCostUsd := s.totalCostUsd + s'.totalCostUsd
    totalTokens := s.totalTokens + s'.totalTokens
    totalTurns := s.totalTurns + s'.totalTurns
    taskCount := s.taskCount + s'.taskCount
    sampleEventCount := s.sampleEventCount + s'.sampleEventCount }

namespace EventLog

variable {log log' : EventLog} {se : StoredEvent}

end EventLog

namespace InMemoryEventRepository

theorem events_log_storeAll (repo : InMemoryEventRepository) (events : List Event) :
    (repo.storeAll events).log.events = repo.log.events ++ events := by
  induction events generalizing repo with
  | nil => exact (List.append_nil _).symm
  | cons event events ih =>
    have hstore : (repo.store event).2.log.events = repo.log.events ++ [event] := by
      rw [EventLog.events, log_store, List.map_append, List.map_singleton, EventLog.events]
    refine (ih (repo.store event).2).trans ?_
    rw [hstore, List.append_assoc, List.singleton_append]

/-- Two repositories in which every task has the same last summary. -/
theorem costSummary_congr {repo repo' : InMemoryEventRepository}
    (h : ∀ t, lastSummary workgraphId agentId repo.log.events t =
      lastSummary workgraphId agentId repo'.log.events t) :
    repo.costSummary workgraphId agentId = repo'.costSummary workgraphId agentId := by
  by_cases hscope : OneScope workgraphId agentId
  · rw [costSummary_eq _ _ _ hscope, costSummary_eq _ _ _ hscope,
      exactSummary_perm (EventLog.latestSummaries_perm h)]
  · rw [costSummary, costSummary, if_pos (not_not.mp hscope), if_pos (not_not.mp hscope)]

end InMemoryEventRepository

namespace PostgresEventRepository

theorem bigintSummary_perm {l m : List ExecutionSummary} (h : l.Perm m) :
    bigintSummary l = bigintSummary m := by
  have hsum : ∀ f : ExecutionSummary → Option ℤ,
      Sql.sumInt (l.map f) = Sql.sumInt (m.map f) := by
    intro f
    rw [Sql.sumInt_eq_bmod, Sql.sumInt_eq_bmod, Sql.sum_reduceOption, Sql.sum_reduceOption]
    exact congrArg (Int.bmod · (2 ^ 64)) ((h.map f).map _).sum_eq
  simp only [bigintSummary, (h.map _).sum_eq, hsum, h.length_eq]

/-- Two tables in which every task has the same last summary. -/
theorem Holds.costSummary_congr {pg pg' : PostgresEventRepository}
    {stored stored' : List StoredEvent} (hpg : pg.Holds stored) (hpg' : pg'.Holds stored')
    (h : ∀ t, lastSummary workgraphId agentId hpg.log.events t =
      lastSummary workgraphId agentId hpg'.log.events t) :
    pg.costSummary workgraphId agentId = pg'.costSummary workgraphId agentId := by
  by_cases hscope : OneScope workgraphId agentId
  · obtain ⟨summaries, hperm, hcost⟩ := hpg.costSummary_eq hscope
    obtain ⟨summaries', hperm', hcost'⟩ := hpg'.costSummary_eq hscope
    have hsame : summaries.Perm summaries' :=
      (hperm.trans (EventLog.latestSummaries_perm h)).trans hperm'.symm
    rw [hcost, hcost', bigintSummary_perm hsame]
    simp only [hsame.mem_iff]
  · rw [costSummary, costSummary, if_pos (not_not.mp hscope), if_pos (not_not.mp hscope)]

end PostgresEventRepository

/-- A finished run of the task `u`. -/
def finishedElsewhere (totalTokens : ℤ) : Event where
  toEnvelope := .ofDefaults "wg" (some "u") "executor" (isoMidnight .epoch)
  data := .taskStateChanged ⟨"doing", "done", some ⟨none, some totalTokens, none⟩⟩
  valid := Envelope.valid_ofDefaults (by decide) (by decide) (by decide)

/-- **A retry changes no rollup.** An event that is stored again, before its task has reported
anything else in the scope, leaves the rollup as it would be without, then and after any further
stores. -/
theorem cost_summary_retry (repo : InMemoryEventRepository) (event : Event)
    (between later : List Event)
    (hbetween : ∀ e ∈ between, e.taskId = event.taskId → ¬ BearsSummary workgraphId agentId e) :
    (repo.storeAll (event :: between ++ event :: later)).costSummary workgraphId agentId =
      (repo.storeAll (event :: between ++ later)).costSummary workgraphId agentId := by
  refine InMemoryEventRepository.costSummary_congr fun t => ?_
  set once := repo.log.events ++ event :: between with honce
  have htwice : lastSummary workgraphId agentId (once ++ [event]) t =
      lastSummary workgraphId agentId once t := by
    rw [lastSummary_concat]
    split_ifs with hevent
    · -- the first report is still the last one of its task
      obtain ⟨hbears, htask⟩ := hevent
      have hsilent : lastSummary workgraphId agentId once t =
          lastSummary workgraphId agentId (repo.log.events ++ [event]) t := by
        rw [honce, ← List.singleton_append, ← List.append_assoc]
        exact lastSummary_append_of_silent fun e he het => hbetween e he (het.trans htask.symm)
      rw [hsilent, lastSummary_concat, if_pos ⟨hbears, htask⟩]
    · rfl
  have hlater := lastSummary_append_congr htwice later
  rw [InMemoryEventRepository.events_log_storeAll, InMemoryEventRepository.events_log_storeAll]
  simpa [honce] using hlater

/-- A report that is posted twice, with another task's in between. -/
theorem cost_summary_retry_once :
    (InMemoryEventRepository.init.storeAll
        ([finishedRun 70, finishedElsewhere 99] ++ [finishedRun 70])).costSummary (some "wg") none =
      (InMemoryEventRepository.init.storeAll
        [finishedRun 70, finishedElsewhere 99]).costSummary (some "wg") none := by
  refine cost_summary_retry InMemoryEventRepository.init (finishedRun 70) [finishedElsewhere 99] []
    fun e he htask => ?_
  obtain rfl := List.mem_singleton.mp he
  exact absurd htask (by decide)

end Vfobs
