import Mathlib.Tactic.Common
import Mathlib.Data.Nat.Notation

/-!
# The proleptic Gregorian calendar

`Calendar.Date` is Python's `datetime.date`: a valid year, month and day, the year between
`1` and `9999`. `Date.toOrdinal` numbers the days, `0001-01-01` being day `1`.

Months are numbered through (`Date.monthNumber`), and `firstDay k` is the ordinal of the first
of month `k`. Consecutive months tile the days: `monthStart_succ` inside a year and
`monthStart_next_year` across its end, so that `firstDay` is strictly increasing
(`firstDay_lt_succ`), and a date lies on or after the first of a month exactly when its own month
does (`Date.firstDay_le_toOrdinal_iff`).
-/

namespace Calendar

/-- `calendar.isleap`. -/
def isLeap (y : ℕ) : Bool := y % 4 = 0 && (y % 100 ≠ 0 || y % 400 = 0)

theorem isLeap_iff {y : ℕ} : isLeap y = true ↔ y % 4 = 0 ∧ (y % 100 ≠ 0 ∨ y % 400 = 0) := by
  simp [isLeap]

theorem not_isLeap_iff {y : ℕ} : ¬ isLeap y = true ↔ y % 4 ≠ 0 ∨ y % 100 = 0 ∧ y % 400 ≠ 0 := by
  rw [isLeap_iff, not_and_or, not_or, not_not]

/-- Number of days of month `m` of year `y`. -/
def daysInMonth (y m : ℕ) : ℕ :=
  if m = 2 then (if isLeap y then 29 else 28)
  else if m = 4 ∨ m = 6 ∨ m = 9 ∨ m = 11 then 30 else 31

theorem daysInMonth_pos (y m : ℕ) : 0 < daysInMonth y m := by
  rw [daysInMonth]
  split_ifs <;> omega

/-- Days in the years before `y`. -/
def daysBeforeYear (y : ℕ) : ℕ := 365 * (y - 1) + (y - 1) / 4 - (y - 1) / 100 + (y - 1) / 400

theorem daysBeforeYear_succ {y : ℕ} (hy : 1 ≤ y) :
    daysBeforeYear (y + 1) = daysBeforeYear y + if isLeap y then 366 else 365 := by
  simp only [daysBeforeYear, Nat.add_sub_cancel]
  split_ifs with h
  · obtain ⟨h4, h100 | h400⟩ := isLeap_iff.mp h
    · omega
    · omega
  · obtain h4 | ⟨h100, h400⟩ := not_isLeap_iff.mp h
    · -- what is no multiple of 4 is none of 100 or 400: no quotient grows
      have hq4 : y / 4 = (y - 1) / 4 := by omega
      have hq100 : y / 100 = (y - 1) / 100 := by omega
      have hq400 : y / 400 = (y - 1) / 400 := by omega
      rw [hq4, hq100, hq400]
      omega
    · omega

/-- Days in the months of `y` before `m`. -/
def daysBeforeMonth (y : ℕ) : ℕ → ℕ
  | 0 | 1 => 0
  | m + 2 => daysBeforeMonth y (m + 1) + daysInMonth y (m + 1)

/-- Days before the first of month `m` of year `y`. -/
def monthStart (y m : ℕ) : ℕ := daysBeforeYear y + daysBeforeMonth y m

/-- The months of a year tile it. -/
theorem monthStart_succ {y m : ℕ} (hm : 1 ≤ m) :
    monthStart y (m + 1) = monthStart y m + daysInMonth y m := by
  obtain ⟨k, rfl⟩ : ∃ k, m = k + 1 := ⟨m - 1, by omega⟩
  rw [monthStart, monthStart, daysBeforeMonth, Nat.add_assoc]

/-- The first month of the next year follows the twelfth month of this one. -/
theorem monthStart_next_year {y : ℕ} (hy : 1 ≤ y) :
    monthStart (y + 1) 1 = monthStart y 12 + daysInMonth y 12 := by
  rw [← monthStart_succ (by omega), monthStart, monthStart, daysBeforeYear_succ hy]
  simp only [daysBeforeMonth, daysInMonth]
  by_cases h : isLeap y <;> simp [h]

/-- `y`, `m`, `d` are the fields of a `datetime.date`. -/
def ValidDate (y m d : ℕ) : Prop :=
  1 ≤ y ∧ y ≤ 9999 ∧ 1 ≤ m ∧ m ≤ 12 ∧ 1 ≤ d ∧ d ≤ daysInMonth y m

instance (y m d : ℕ) : Decidable (ValidDate y m d) :=
  inferInstanceAs (Decidable (_ ∧ _))

/-- `datetime.date`. -/
structure Date where
  year : ℕ
  month : ℕ
  day : ℕ
  valid : ValidDate year month day
  deriving DecidableEq

namespace Date

/-- The first day of Unix time. -/
def epoch : Date := ⟨1970, 1, 1, by decide⟩

/-- `date(y, m, d)`; `none` is the `ValueError`. -/
def mk? (y m d : ℕ) : Option Date := if h : ValidDate y m d then some ⟨y, m, d, h⟩ else none

theorem mk?_eq_some {y m d : ℕ} {e : Date} :
    mk? y m d = some e ↔ e.year = y ∧ e.month = m ∧ e.day = d := by
  rw [mk?]
  split_ifs with h
  · rw [Option.some.injEq]
    constructor
    · rintro rfl
      exact ⟨rfl, rfl, rfl⟩
    · obtain ⟨y', m', d', h'⟩ := e
      rintro ⟨rfl, rfl, rfl⟩
      rfl
  · refine iff_of_false (by simp) ?_
    rintro ⟨rfl, rfl, rfl⟩
    exact h e.valid

@[simp]
theorem mk?_self (d : Date) : mk? d.year d.month d.day = some d := mk?_eq_some.mpr ⟨rfl, rfl, rfl⟩

/-- `date.toordinal`: `0001-01-01` is day `1`. -/
def toOrdinal (d : Date) : ℕ := monthStart d.year d.month + d.day

end Date

/-! ### Months, numbered through -/

/-- The ordinal of the first day of month `k`, counted from January of year `0`. -/
def firstDay (k : ℕ) : ℕ := monthStart (k / 12) (k % 12 + 1) + 1

theorem firstDay_succ {k : ℕ} (hk : 12 ≤ k) :
    firstDay (k + 1) = firstDay k + daysInMonth (k / 12) (k % 12 + 1) := by
  unfold firstDay
  by_cases hlast : k % 12 = 11
  · rw [show (k + 1) / 12 = k / 12 + 1 by omega, show (k + 1) % 12 + 1 = 1 by omega,
      show k % 12 + 1 = 12 by omega, monthStart_next_year (by omega)]
    omega
  · rw [show (k + 1) / 12 = k / 12 by omega, show (k + 1) % 12 + 1 = k % 12 + 1 + 1 by omega,
      monthStart_succ (by omega)]
    omega

theorem firstDay_lt_succ {k : ℕ} (hk : 12 ≤ k) : firstDay k < firstDay (k + 1) := by
  rw [firstDay_succ hk]
  exact Nat.lt_add_of_pos_right (daysInMonth_pos _ _)

theorem firstDay_mono {k m : ℕ} (hk : 12 ≤ k) (hkm : k ≤ m) : firstDay k ≤ firstDay m := by
  obtain ⟨n, rfl⟩ := Nat.exists_eq_add_of_le hkm
  induction n with
  | zero => exact Nat.le_refl _
  | succ n ih =>
    exact Nat.le_trans (ih (by omega)) (Nat.le_of_lt (firstDay_lt_succ (by omega)))

/-- The first of month `k`; `none` when its year is no year of a date. -/
def firstOfMonth (k : ℕ) : Option Date := Date.mk? (k / 12) (k % 12 + 1) 1

theorem firstOfMonth_isSome_iff {k : ℕ} :
    (firstOfMonth k).isSome ↔ 12 ≤ k ∧ k < 12 * 10000 := by
  have hpos := daysInMonth_pos (k / 12) (k % 12 + 1)
  have hvalid : ValidDate (k / 12) (k % 12 + 1) 1 ↔ 12 ≤ k ∧ k < 12 * 10000 := by
    rw [ValidDate]
    omega
  rw [firstOfMonth, Date.mk?, ← hvalid]
  split_ifs with h <;> simp [h]

namespace Date

/-- The number of the month of a date. -/
def monthNumber (d : Date) : ℕ := 12 * d.year + (d.month - 1)

theorem monthNumber_div (d : Date) : d.monthNumber / 12 = d.year := by
  obtain ⟨-, -, hm, hm', -⟩ := d.valid
  rw [monthNumber]
  omega

theorem monthNumber_mod (d : Date) : d.monthNumber % 12 + 1 = d.month := by
  obtain ⟨-, -, hm, hm', -⟩ := d.valid
  rw [monthNumber]
  omega

theorem monthNumber_mem (d : Date) : 12 ≤ d.monthNumber ∧ d.monthNumber < 12 * 10000 := by
  obtain ⟨hy, hy', hm, hm', -⟩ := d.valid
  rw [monthNumber]
  omega

theorem firstDay_le_toOrdinal (d : Date) : firstDay d.monthNumber ≤ d.toOrdinal := by
  obtain ⟨-, -, -, -, hpos, -⟩ := d.valid
  rw [firstDay, toOrdinal, monthNumber_div, monthNumber_mod]
  omega

theorem toOrdinal_lt_firstDay (d : Date) : d.toOrdinal < firstDay (d.monthNumber + 1) := by
  obtain ⟨-, -, -, -, -, hday⟩ := d.valid
  rw [firstDay_succ d.monthNumber_mem.1, firstDay, toOrdinal, monthNumber_div, monthNumber_mod]
  omega

/-- A date is on or after the first of a month when its own month is. -/
theorem firstDay_le_toOrdinal_iff {d : Date} {k : ℕ} (hk : 12 ≤ k) :
    firstDay k ≤ d.toOrdinal ↔ k ≤ d.monthNumber := by
  constructor
  · intro h
    by_contra hlt
    have hmono := firstDay_mono (by have := d.monthNumber_mem.1; omega)
      (show d.monthNumber + 1 ≤ k by omega)
    have hhigh := d.toOrdinal_lt_firstDay
    omega
  · intro h
    exact Nat.le_trans (firstDay_mono hk h) d.firstDay_le_toOrdinal

theorem toOrdinal_lt_firstDay_iff {d : Date} {k : ℕ} (hk : 12 ≤ k) :
    d.toOrdinal < firstDay k ↔ d.monthNumber < k := by
  rw [← Nat.not_le, firstDay_le_toOrdinal_iff hk, Nat.not_le]

end Date

theorem day_of_firstOfMonth {k : ℕ} {d : Date} (h : firstOfMonth k = some d) : d.day = 1 :=
  (Date.mk?_eq_some.mp h).2.2

theorem monthNumber_of_firstOfMonth {k : ℕ} {d : Date} (h : firstOfMonth k = some d) :
    d.monthNumber = k ∧ d.toOrdinal = firstDay k := by
  obtain ⟨hy, hm, hd⟩ := Date.mk?_eq_some.mp h
  rw [Date.monthNumber, Date.toOrdinal, firstDay, hy, hm, hd]
  omega

end Calendar
