import Vfobs.Foundations.Sql
import Mathlib.Data.List.Monad

/-!
# The migration `0001_initial_schema`

`vfobs.events` is partitioned by ranges of its timestamp. The migration creates one partition
for each of the three months that begin with the current one, and nothing else in the
repository creates any; there is no default partition. Bounds are the midnights, in UTC, of
the first days of months, and a timestamp is routed to the partition that contains it.

An `INSERT` gives a value for each of `eventsColumns`, and the table has two `CHECK`s.

`partitions today n` are the partitions for offsets `0` to `n - 1`. They exist as long as no
date after the year 9999 is needed (`partitions_isSome_iff`) and contain exactly the instants
from the first day of the month of `today` up to the first day of the month `n` months later
(`exists_contains_iff`).
-/

namespace Vfobs

open Calendar Datetime

/-- `_month_floor`. -/
def monthFloor (d : Date) : Date where
  year := d.year
  month := d.month
  day := 1
  valid := by
    obtain ⟨hy, hy', hm, hm', -⟩ := d.valid
    exact ⟨hy, hy', hm, hm', le_rfl, daysInMonth_pos _ _⟩

/-- `_next_month`; `none` is the `ValueError` of a year past 9999. -/
def nextMonth (d : Date) : Option Date :=
  if d.month = 12 then Date.mk? (d.year + 1) 1 1 else Date.mk? d.year (d.month + 1) 1

/-- A partition of `vfobs.events`: `FOR VALUES FROM (start) TO (end)`. -/
structure Partition where
  name : String
  start : Date
  stop : Date

/-- The partition takes rows with this timestamp: the lower bound is inclusive, the upper one
is not. -/
def Partition.Contains (p : Partition) (timestamp : ℤ) : Prop :=
  midnight p.start ≤ timestamp ∧ timestamp < midnight p.stop

instance (p : Partition) (timestamp : ℤ) : Decidable (p.Contains timestamp) :=
  inferInstanceAs (Decidable (_ ∧ _))

/-- `_partition_for_offset`, on the day `today`. -/
def partitionForOffset (today : Date) (offset : ℕ) : Option Partition := do
  let start ← (List.range offset).foldlM (fun start _ => nextMonth start) (monthFloor today)
  let stop ← nextMonth start
  let name := "events_" ++ toString start.year ++ "_" ++ String.ofList (Digits.pad 2 start.month)
  some ⟨name, start, stop⟩

/-- The partitions of the first `n` offsets. -/
def partitions (today : Date) (n : ℕ) : Option (List Partition) :=
  (List.range n).mapM (partitionForOffset today)

/-- The partitions that `upgrade` creates. -/
def upgrade (today : Date) : Option (List Partition) := partitions today 3

/-! ### The columns -/

/-- The columns of `vfobs.events` for which an `INSERT` gives a value. -/
def eventsColumns : List Sql.Column :=
  [⟨"v", .smallint, false⟩, ⟨"workgraph_id", .text, false⟩, ⟨"task_id", .text, true⟩,
    ⟨"agent_id", .text, true⟩, ⟨"trace_id", .text, true⟩, ⟨"source", .text, false⟩,
    ⟨"type", .text, false⟩, ⟨"timestamp", .timestamptz, false⟩, ⟨"data", .jsonb, false⟩,
    ⟨"classification", .text, false⟩, ⟨"org_id", .text, false⟩, ⟨"cluster_id", .text, false⟩]

/-- `events_type_namespace_chk`. -/
def eventsTypeNamespaceChk (type : String) : Prop :=
  ∃ n ∈ ["workgraph", "task", "harness", "gate", "judge", "anomaly"],
    (n ++ ".").toList.isPrefixOf type.toList

instance (type : String) : Decidable (eventsTypeNamespaceChk type) :=
  inferInstanceAs (Decidable (∃ n ∈ _, _))

/-- `events_classification_chk`. -/
def eventsClassificationChk (classification : String) : Prop :=
  classification ∈ ["public", "internal", "secret"]

instance (classification : String) : Decidable (eventsClassificationChk classification) :=
  inferInstanceAs (Decidable (_ ∈ _))

/-! ### Months -/

theorem firstOfMonth_monthNumber (d : Date) : firstOfMonth d.monthNumber = some (monthFloor d) := by
  rw [firstOfMonth, Date.mk?_eq_some, Date.monthNumber_div, Date.monthNumber_mod]
  exact ⟨rfl, rfl, rfl⟩

theorem nextMonth_eq (d : Date) : nextMonth d = firstOfMonth (d.monthNumber + 1) := by
  have hdiv := d.monthNumber_div
  have hmod := d.monthNumber_mod
  rw [nextMonth, firstOfMonth]
  split_ifs with h
  · rw [show (d.monthNumber + 1) / 12 = d.year + 1 by omega,
      show (d.monthNumber + 1) % 12 + 1 = 1 by omega]
  · rw [show (d.monthNumber + 1) / 12 = d.year by omega,
      show (d.monthNumber + 1) % 12 + 1 = d.month + 1 by omega]

/-- Stepping from a month to the next, when both are months of dates. -/
theorem firstOfMonth_bind_nextMonth {k : ℕ} (hk : 12 ≤ k) :
    (firstOfMonth k).bind nextMonth = firstOfMonth (k + 1) := by
  cases h : firstOfMonth k with
  | some d => rw [Option.bind_some, nextMonth_eq, (monthNumber_of_firstOfMonth h).1]
  | none =>
    have hnone : ¬ (firstOfMonth k).isSome := by simp [h]
    have hnone' : ¬ (firstOfMonth (k + 1)).isSome := by
      rw [firstOfMonth_isSome_iff] at hnone ⊢
      omega
    rw [Option.bind_none, Option.not_isSome_iff_eq_none.mp hnone']

/-- The loop of `_partition_for_offset` ends `offset` months later. -/
theorem foldlM_nextMonth (today : Date) (offset : ℕ) :
    (List.range offset).foldlM (fun start _ => nextMonth start) (monthFloor today) =
      firstOfMonth (today.monthNumber + offset) := by
  induction offset with
  | zero => exact (firstOfMonth_monthNumber today).symm
  | succ offset ih =>
    have h12 := today.monthNumber_mem.1
    rw [List.range_succ, List.foldlM_append, ih, ← Nat.add_assoc,
      ← firstOfMonth_bind_nextMonth (by omega)]
    simp only [List.foldlM_cons, List.foldlM_nil, bind_pure]
    rfl

theorem partitionForOffset_isSome_iff (today : Date) (offset : ℕ) :
    (partitionForOffset today offset).isSome ↔ today.monthNumber + offset + 1 < 12 * 10000 := by
  have h12 := today.monthNumber_mem.1
  have hstart := firstOfMonth_isSome_iff (k := today.monthNumber + offset)
  have hstop := firstOfMonth_isSome_iff (k := today.monthNumber + offset + 1)
  rw [← firstOfMonth_bind_nextMonth (by omega)] at hstop
  rw [partitionForOffset, foldlM_nextMonth]
  cases hs : firstOfMonth (today.monthNumber + offset) with
  | none =>
    rw [hs] at hstart
    simp only [Option.isSome_none, Bool.false_eq_true, false_iff] at hstart
    refine iff_of_false (by simp) ?_
    omega
  | some start =>
    rw [hs, Option.bind_some] at hstop
    cases hn : nextMonth start with
    | none =>
      rw [hn] at hstop
      refine iff_of_false (by simp [hn]) ?_
      simp only [Option.isSome_none, Bool.false_eq_true, false_iff] at hstop
      omega
    | some stop =>
      rw [hn] at hstop
      refine iff_of_true (by simp [hn]) ?_
      simp only [Option.isSome_some, true_iff] at hstop
      omega

/-- A partition goes from the first of a month to the first of the next. -/
theorem months_of_partitionForOffset {today : Date} {offset : ℕ} {p : Partition}
    (h : partitionForOffset today offset = some p) :
    firstOfMonth (today.monthNumber + offset) = some p.start ∧
      firstOfMonth (today.monthNumber + offset + 1) = some p.stop ∧
      p.name = "events_" ++ toString p.start.year ++ "_" ++
        String.ofList (Digits.pad 2 p.start.month) := by
  rw [partitionForOffset, foldlM_nextMonth] at h
  simp only [Option.bind_eq_bind, Option.bind_eq_some_iff, Option.some.injEq] at h
  obtain ⟨start, hstart, stop, hstop, rfl⟩ := h
  rw [nextMonth_eq, (monthNumber_of_firstOfMonth hstart).1] at hstop
  exact ⟨hstart, hstop, rfl⟩

/-- The bounds of a partition are the first days of consecutive months. -/
theorem bounds_of_partitionForOffset {today : Date} {offset : ℕ} {p : Partition}
    (h : partitionForOffset today offset = some p) :
    p.start.toOrdinal = firstDay (today.monthNumber + offset) ∧
      p.stop.toOrdinal = firstDay (today.monthNumber + offset + 1) := by
  obtain ⟨hstart, hstop, -⟩ := months_of_partitionForOffset h
  exact ⟨(monthNumber_of_firstOfMonth hstart).2, (monthNumber_of_firstOfMonth hstop).2⟩

/-! ### What the partitions cover -/

theorem partitions_succ (today : Date) (n : ℕ) :
    partitions today (n + 1) = (partitions today n).bind fun parts =>
      (partitionForOffset today n).map fun p => parts ++ [p] := by
  rw [partitions, List.range_succ, List.mapM_append, ← partitions]
  cases partitions today n with
  | none => rfl
  | some parts => cases h : partitionForOffset today n <;> simp [h]

theorem eq_nil_of_partitions_zero {today : Date} {parts : List Partition}
    (h : partitions today 0 = some parts) : parts = [] := by
  simpa [partitions] using h.symm

/-- The last partition, and those before it. -/
theorem exists_of_partitions_succ {today : Date} {n : ℕ} {parts : List Partition}
    (h : partitions today (n + 1) = some parts) :
    ∃ init p, partitions today n = some init ∧ partitionForOffset today n = some p ∧
      init ++ [p] = parts := by
  rw [partitions_succ, Option.bind_eq_some_iff] at h
  obtain ⟨init, hinit, hlast⟩ := h
  obtain ⟨p, hp, hparts⟩ := Option.map_eq_some_iff.mp hlast
  exact ⟨init, p, hinit, hp, hparts⟩

/-- The migration succeeds unless it needs a date past the year 9999. -/
theorem partitions_isSome_iff (today : Date) (n : ℕ) :
    (partitions today n).isSome ↔ today.monthNumber + n < 12 * 10000 := by
  induction n with
  | zero => simp [partitions, today.monthNumber_mem.2]
  | succ n ih =>
    rw [partitions_succ]
    have hlast := partitionForOffset_isSome_iff today n
    cases hparts : partitions today n with
    | none =>
      rw [hparts] at ih
      refine iff_of_false (by simp) ?_
      simp only [Option.isSome_none, Bool.false_eq_true, false_iff] at ih
      omega
    | some parts =>
      rw [Option.bind_some, Option.isSome_map, hlast, Nat.add_assoc]

/-- **Key result.** The partitions of `n` offsets contain exactly the instants from the first
day of the month of `today` up to the first day of the month `n` months later. -/
theorem exists_contains_iff {today : Date} {n : ℕ} {parts : List Partition}
    (h : partitions today n = some parts) (timestamp : ℤ) :
    (∃ p ∈ parts, p.Contains timestamp) ↔
      firstDay today.monthNumber * dayMicros ≤ timestamp ∧
        timestamp < firstDay (today.monthNumber + n) * dayMicros := by
  induction n generalizing parts with
  | zero =>
    obtain rfl := eq_nil_of_partitions_zero h
    simp
  | succ n ih =>
    obtain ⟨init, p, hinit, hp, rfl⟩ := exists_of_partitions_succ h
    obtain ⟨hstart, hstop⟩ := bounds_of_partitionForOffset hp
    have h12 := today.monthNumber_mem.1
    have hle : firstDay today.monthNumber ≤ firstDay (today.monthNumber + n) :=
      firstDay_mono h12 (by omega)
    have hlt : firstDay (today.monthNumber + n) ≤ firstDay (today.monthNumber + n + 1) :=
      firstDay_mono (by omega) (by omega)
    have hp' : p.Contains timestamp ↔
        firstDay (today.monthNumber + n) * dayMicros ≤ timestamp ∧
          timestamp < firstDay (today.monthNumber + n + 1) * dayMicros := by
      rw [Partition.Contains, midnight, midnight, hstart, hstop]
    simp only [List.mem_append, List.mem_singleton, or_and_right, exists_or, exists_eq_left,
      ih hinit, hp']
    -- the new range begins where the earlier ones end
    simp only [dayMicros, ← Nat.add_assoc]
    omega

end Vfobs
