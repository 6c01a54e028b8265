import Vfobs.Repositories.Postgres

/-!
# Ingest and the partitions

The write path takes any timestamp, the schema has the three partitions that the migration
created. `Ingestible today event` says that an event gets into a database migrated on
`today`, whatever was stored in between: its timestamp is routed to a partition, so that the
`INSERT` does not fail for want of one.

For events that carry the current time this holds until the first day of the third month
after the migration's, and never after (`ingestible_iff`): no partition is created later, and
there is no default one. Dates are those of a clock in UTC.
-/

namespace Vfobs

open Calendar Datetime

namespace PostgresEventRepository

/-- The database after the migration, run on the day `today`. -/
def migrate (today : Date) : Option PostgresEventRepository :=
  (upgrade today).map fun parts => ⟨parts, [], 1⟩

/-- The database after `store` of each event in turn, failed or not. -/
def storeAll (repo : PostgresEventRepository) (events : List Event) : PostgresEventRepository :=
  events.foldl (fun repo event => (repo.store event).2) repo

/-- A `store` creates no partition. -/
theorem partitions_store (repo : PostgresEventRepository) (event : Event) :
    (repo.store event).2.partitions = repo.partitions := by
  rw [store]
  split_ifs <;> rfl

theorem partitions_storeAll (repo : PostgresEventRepository) (events : List Event) :
    (repo.storeAll events).partitions = repo.partitions := by
  induction events generalizing repo with
  | nil => rfl
  | cons event events ih => exact (ih _).trans (repo.partitions_store event)

/-- An admitted row is stored when it is routed to a partition. -/
theorem store_ok {repo : PostgresEventRepository} {event : Event}
    (hrow : (eventToRow event).Admitted) (hroute : repo.Routable (eventToRow event)) :
    ∃ id, (repo.store event).1 = .ok id := by
  refine ⟨repo.nextval, ?_⟩
  simp only [store, hrow, hroute, not_true_eq_false, if_false]

end PostgresEventRepository

open PostgresEventRepository

/-- The event gets into a database that was migrated on `today`, whatever has been stored
before: it is routed to a partition, and stored if its columns are admitted. -/
def Ingestible (today : Date) (event : Event) : Prop :=
  ∃ db, migrate today = some db ∧ ∀ earlier : List Event,
    (db.storeAll earlier).Routable (eventToRow event) ∧
      ((eventToRow event).Admitted → ∃ id, ((db.storeAll earlier).store event).1 = .ok id)

/-- The first instant after the migration's three months. -/
def partitionsEnd (today : Date) : ℤ := firstDay (today.monthNumber + 3) * dayMicros

theorem routable_migrate_iff {today : Date} {db : PostgresEventRepository}
    (hdb : migrate today = some db) (earlier : List Event) (row : RowValues) :
    (db.storeAll earlier).Routable row ↔
      firstDay today.monthNumber * dayMicros ≤ row.timestamp.1.instant ∧
        row.timestamp.1.instant < partitionsEnd today := by
  obtain ⟨parts, hparts, rfl⟩ := Option.map_eq_some_iff.mp hdb
  rw [Routable, partitions_storeAll]
  exact exists_contains_iff hparts _

/-- **Ingest outlives its partitions.** An event that carries the current time, at any moment
from the day of the migration on, gets into the database if and only if the migration's
dates are dates and the moment is before the end of its three months. -/
theorem ingestible_iff {today : Date} {event : Event}
    (hnow : midnight today ≤ event.timestamp.1.instant) :
    Ingestible today event ↔
      today.monthNumber + 3 < 12 * 10000 ∧ event.timestamp.1.instant < partitionsEnd today := by
  have hmonth : firstDay today.monthNumber * dayMicros ≤ event.timestamp.1.instant := by
    have hle := today.firstDay_le_toOrdinal
    simp only [midnight, dayMicros] at hnow ⊢
    omega
  rw [← partitions_isSome_iff today 3, ← upgrade]
  constructor
  · rintro ⟨db, hdb, h⟩
    have hroute := (routable_migrate_iff hdb [] _).mp (h []).1
    obtain ⟨parts, hparts, -⟩ := Option.map_eq_some_iff.mp hdb
    exact ⟨by rw [hparts]; rfl, hroute.2⟩
  · rintro ⟨hsome, hend⟩
    obtain ⟨parts, hparts⟩ := Option.isSome_iff_exists.mp hsome
    have hdb : migrate today = some ⟨parts, [], 1⟩ := by rw [migrate, hparts, Option.map_some]
    refine ⟨_, hdb, fun earlier => ?_⟩
    have hroute := (routable_migrate_iff hdb earlier (eventToRow event)).mpr ⟨hmonth, hend⟩
    exact ⟨hroute, fun hrow => store_ok hrow hroute⟩

/-- A day of the migration. -/
def migrationDay : Date := ⟨2026, 5, 14, by decide⟩

theorem ingestible_next_month :
    Ingestible migrationDay (runEvent (isoMidnight ⟨2026, 6, 1, by decide⟩) (.taskClaimed ⟨"a"⟩)) :=
  (ingestible_iff (by decide)).mpr (by decide)

/-- Migrated in May, a database takes no event that carries the first of August. -/
theorem not_ingestible_third_month :
    midnight migrationDay ≤ (isoMidnight ⟨2026, 8, 1, by decide⟩).1.instant ∧
      ¬ Ingestible migrationDay
        (runEvent (isoMidnight ⟨2026, 8, 1, by decide⟩) (.taskClaimed ⟨"a"⟩)) := by
  refine ⟨by decide, ?_⟩
  rintro ⟨db, hdb, h⟩
  have hend := ((routable_migrate_iff hdb [] _).mp (h []).1).2
  exact absurd hend (by decide)

end Vfobs
