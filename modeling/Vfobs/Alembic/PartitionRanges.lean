import Vfobs.Alembic.InitialSchema
import Mathlib.Data.List.Pairwise

/-!
# The ranges of the partitions

The partitions of offsets `0` to `n` are those of consecutive months: a date is in the partition
of an offset when its month is that many months after the current one
(`containsDate_getElem_iff`), and a name tells the month (`eq_of_name_eq`). `Tiling` is what the
ranges have to be for the migration to succeed and for no month to be left out; `partitions_tile`
says that they are, for every day and every number of months that does not go past the year 9999.
-/

namespace Vfobs

open Calendar Datetime

/-- The partition contains a date. -/
def Partition.ContainsDate (p : Partition) (d : Date) : Prop :=
  p.start.toOrdinal ≤ d.toOrdinal ∧ d.toOrdinal < p.stop.toOrdinal

/-- The ranges begin with the month of `today`, follow one another without a gap or an overlap,
and end with the day before `last`. -/
structure Tiling (today last : Date) (parts : List Partition) : Prop where
  firstDays : ∀ p ∈ parts, p.start.day = 1 ∧ p.stop.day = 1
  adjacent : ∀ i (h : i + 1 < parts.length), parts[i].stop = parts[i + 1].start
  disjoint : parts.Pairwise fun p p' => ∀ d, ¬ (p.ContainsDate d ∧ p'.ContainsDate d)
  names : (parts.map Partition.name).Nodup
  current : ∀ p ∈ parts.head?, p.ContainsDate today
  covers : ∀ d, (∃ p ∈ parts, p.ContainsDate d) ↔
    (monthFloor today).toOrdinal ≤ d.toOrdinal ∧ d.toOrdinal < last.toOrdinal

/-- A date is contained when its midnight is. -/
theorem Partition.containsDate_iff {p : Partition} {d : Date} :
    p.ContainsDate d ↔ p.Contains (midnight d) := by
  simp only [ContainsDate, Contains, midnight, dayMicros]
  omega

variable {today : Date} {n : ℕ} {parts : List Partition}

/-! ### One partition for each offset -/

theorem length_of_partitions (h : partitions today n = some parts) : parts.length = n := by
  induction n generalizing parts with
  | zero =>
    obtain rfl := eq_nil_of_partitions_zero h
    rfl
  | succ n ih =>
    obtain ⟨init, p, hinit, -, rfl⟩ := exists_of_partitions_succ h
    rw [List.length_append, ih hinit, List.length_singleton]

theorem getElem_of_partitions (h : partitions today n = some parts) {i : ℕ}
    (hi : i < parts.length) : partitionForOffset today i = some parts[i] := by
  induction n generalizing parts with
  | zero =>
    obtain rfl := eq_nil_of_partitions_zero h
    cases hi
  | succ n ih =>
    obtain ⟨init, p, hinit, hp, rfl⟩ := exists_of_partitions_succ h
    have hlength := length_of_partitions hinit
    by_cases hlt : i < init.length
    · rw [List.getElem_append_left hlt]
      exact ih hinit hlt
    · obtain rfl : i = n := by
        rw [List.length_append, List.length_singleton] at hi
        omega
      rw [List.getElem_append_right (by omega), hp]
      simp

/-- A date is in the partition of its month. -/
theorem containsDate_getElem_iff (h : partitions today n = some parts) {i : ℕ}
    (hi : i < parts.length) {d : Date} :
    parts[i].ContainsDate d ↔ d.monthNumber = today.monthNumber + i := by
  obtain ⟨hstart, hstop⟩ := bounds_of_partitionForOffset (getElem_of_partitions h hi)
  have h12 := today.monthNumber_mem.1
  rw [Partition.ContainsDate, hstart, hstop, Date.firstDay_le_toOrdinal_iff (by omega),
    Date.toOrdinal_lt_firstDay_iff (by omega)]
  omega

/-! ### Names -/

/-- The name tells the month. -/
theorem eq_of_name_eq {i j : ℕ} {p p' : Partition} (h : partitionForOffset today i = some p)
    (h' : partitionForOffset today j = some p') (hname : p.name = p'.name) : i = j := by
  obtain ⟨hstart, -, hp⟩ := months_of_partitionForOffset h
  obtain ⟨hstart', -, hp'⟩ := months_of_partitionForOffset h'
  have hmonth (d : Date) : d.month < 10 ^ 2 := by
    obtain ⟨-, -, -, hm, -⟩ := d.valid
    omega
  have hchars := congrArg String.toList (hp ▸ hp' ▸ hname)
  simp only [String.toList_append, String.toList_ofList] at hchars
  obtain ⟨hfront, hback⟩ := List.append_inj' hchars (by simp)
  have hyears := List.append_cancel_left (List.append_cancel_right hfront)
  have hyear : p.start.year = p'.start.year := by
    have := congrArg (fun digits => Nat.ofDigitChars 10 digits 0) hyears
    simpa [Nat.toString_eq_ofList_toDigits] using this
  have hmonths : p.start.month = p'.start.month := by
    rw [← Digits.value_pad (hmonth p.start), hback, Digits.value_pad (hmonth p'.start)]
  have hnumber := (monthNumber_of_firstOfMonth hstart).1
  have hnumber' := (monthNumber_of_firstOfMonth hstart').1
  rw [Date.monthNumber] at hnumber hnumber'
  rw [hyear, hmonths] at hnumber
  omega

/-! ### The tiling -/

/-- **The partitions tile** the months that the migration is for. -/
theorem partitions_tile (today : Date) (n : ℕ)
    (hyear : (today.monthNumber + n + 1) / 12 ≤ 9999) :
    ∃ parts last, partitions today (n + 1) = some parts ∧ parts.length = n + 1 ∧
      firstOfMonth (today.monthNumber + n + 1) = some last ∧ Tiling today last parts := by
  obtain ⟨parts, h⟩ := Option.isSome_iff_exists.mp
    ((partitions_isSome_iff today (n + 1)).mpr (by omega))
  have h12 := today.monthNumber_mem.1
  obtain ⟨last, hlast⟩ : ∃ last, firstOfMonth (today.monthNumber + n + 1) = some last :=
    Option.isSome_iff_exists.mp (firstOfMonth_isSome_iff.mpr ⟨by omega, by omega⟩)
  have hlength := length_of_partitions h
  have hfloor := (monthNumber_of_firstOfMonth (firstOfMonth_monthNumber today)).2
  refine ⟨parts, last, h, hlength, hlast, ?_⟩
  constructor
  case firstDays =>
    intro p hp
    obtain ⟨i, hi, rfl⟩ := List.getElem_of_mem hp
    obtain ⟨hstart, hstop, -⟩ := months_of_partitionForOffset (getElem_of_partitions h hi)
    exact ⟨day_of_firstOfMonth hstart, day_of_firstOfMonth hstop⟩
  case adjacent =>
    intro i hi
    obtain ⟨-, hstop, -⟩ :=
      months_of_partitionForOffset (getElem_of_partitions h (Nat.lt_of_succ_lt hi))
    obtain ⟨hstart, -, -⟩ := months_of_partitionForOffset (getElem_of_partitions h hi)
    exact Option.some.inj (hstop.symm.trans hstart)
  case disjoint =>
    refine List.pairwise_iff_getElem.mpr fun i j hi hj hij d => ?_
    rw [containsDate_getElem_iff h hi, containsDate_getElem_iff h hj]
    omega
  case names =>
    refine List.pairwise_map.mpr (List.pairwise_iff_getElem.mpr fun i j hi hj hij hname => ?_)
    have := eq_of_name_eq (getElem_of_partitions h hi) (getElem_of_partitions h hj) hname
    omega
  case current =>
    intro p hp
    have hpos : 0 < parts.length := by omega
    rw [List.head?_eq_getElem?, List.getElem?_eq_getElem hpos, Option.mem_some_iff] at hp
    rw [← hp, containsDate_getElem_iff h hpos, Nat.add_zero]
  case covers =>
    intro d
    rw [hfloor, (monthNumber_of_firstOfMonth hlast).2, Date.firstDay_le_toOrdinal_iff h12,
      Date.toOrdinal_lt_firstDay_iff (by omega)]
    constructor
    · rintro ⟨p, hp, hd⟩
      obtain ⟨i, hi, rfl⟩ := List.getElem_of_mem hp
      rw [containsDate_getElem_iff h hi] at hd
      omega
    · rintro ⟨hlow, hhigh⟩
      have hi : d.monthNumber - today.monthNumber < parts.length := by omega
      refine ⟨_, List.getElem_mem hi, (containsDate_getElem_iff h hi).mpr ?_⟩
      omega

/-- The migration on a day in May. -/
theorem partitions_tile_may : ∃ parts last,
    partitions ⟨2026, 5, 14, by decide⟩ 3 = some parts ∧ parts.length = 3 ∧
      Tiling ⟨2026, 5, 14, by decide⟩ last parts := by
  obtain ⟨parts, last, h, hlength, -, htiling⟩ :=
    partitions_tile ⟨2026, 5, 14, by decide⟩ 2 (by decide)
  exact ⟨parts, last, h, hlength, htiling⟩

end Vfobs
