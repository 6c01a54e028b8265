import Vfobs.Foundations.Calendar
import Vfobs.Foundations.Digits
import Mathlib.Algebra.Order.Group.Unbundled.Int

/-!
# Datetimes and their ISO 8601 text

`Datetime` is Python's `datetime.datetime`: a date, a time of day to the microsecond and an
optional UTC offset in seconds (`none` for a naive value). `instant` places it on the time
line, a naive value being read as UTC.

`isoText` is the extended format with a `T`, six digits of fraction when there is one, and
`Z` for a zero offset; `ofIsoText` reads it. The offset of the text has whole minutes, so
what is read is the datetime with its offset cut to whole minutes (`ofIsoText_isoText_eq`).
For datetimes whose offset has whole minutes (`MinuteOffset`) this is a round trip
(`ofIsoText_isoText`), for others the instant is another (`instant_wholeMinutes_eq_iff`).
-/

open Calendar Digits

/-- The fields of a time of day, and an offset of less than a day. -/
def ValidTime (hour minute second microsecond : ℕ) (utcoffset : Option ℤ) : Prop :=
  hour < 24 ∧ minute < 60 ∧ second < 60 ∧ microsecond < 1000000 ∧
    ∀ o ∈ utcoffset, o.natAbs < 86400

instance (h m s us : ℕ) (o : Option ℤ) : Decidable (ValidTime h m s us o) :=
  inferInstanceAs (Decidable (_ ∧ _))

/-- `datetime.datetime`; the offset is in seconds. -/
structure Datetime where
  date : Date
  hour : ℕ
  minute : ℕ
  second : ℕ
  microsecond : ℕ
  utcoffset : Option ℤ
  valid : ValidTime hour minute second microsecond utcoffset
  deriving DecidableEq

namespace Datetime

/-- Microseconds in a day. -/
def dayMicros : ℤ := 86400 * 1000000

/-- `datetime(...)`; `none` is the `ValueError`. -/
def mk? (date : Date) (h m s us : ℕ) (o : Option ℤ) : Option Datetime :=
  if hv : ValidTime h m s us o then some ⟨date, h, m, s, us, o, hv⟩ else none

@[simp]
theorem mk?_self (d : Datetime) :
    mk? d.date d.hour d.minute d.second d.microsecond d.utcoffset = some d :=
  dif_pos d.valid

/-- The reading of the wall clock, in microseconds. -/
def wall (d : Datetime) : ℤ :=
  d.date.toOrdinal * dayMicros +
    ((d.hour * 3600 + d.minute * 60 + d.second) * 1000000 + d.microsecond)

/-- The point in time, in microseconds; a naive datetime is read as UTC. -/
def instant (d : Datetime) : ℤ := d.wall - d.utcoffset.getD 0 * 1000000

/-- The first instant of a date, in UTC. -/
def midnight (d : Date) : ℤ := d.toOrdinal * dayMicros

/-- `d if d.tzinfo else d.replace(tzinfo=UTC)`. -/
def assumeUtc (d : Datetime) : Datetime :=
  match d.utcoffset with
  | some _ => d
  | none => { d with
      utcoffset := some 0
      valid := ⟨d.valid.1, d.valid.2.1, d.valid.2.2.1, d.valid.2.2.2.1, by simp⟩ }

@[simp]
theorem instant_assumeUtc (d : Datetime) : d.assumeUtc.instant = d.instant := by
  rw [assumeUtc]
  split
  · rfl
  · next h => simp [instant, wall, h]

/-- The offset, if any, is a whole number of minutes: what ISO text can express. -/
def MinuteOffset (d : Datetime) : Prop := ∀ o ∈ d.utcoffset, 60 ∣ o

instance (d : Datetime) : Decidable d.MinuteOffset :=
  match h : d.utcoffset with
  | none => isTrue (by simp [MinuteOffset, h])
  | some o => decidable_of_iff (60 ∣ o) (by simp [MinuteOffset, h])

/-- What whole minutes there are in an offset, in seconds. -/
def wholeMinute (o : ℤ) : ℤ := if o < 0 then -(-o / 60 * 60) else o / 60 * 60

theorem wholeMinute_eq_iff {o : ℤ} : wholeMinute o = o ↔ 60 ∣ o := by
  rw [wholeMinute]
  split_ifs <;> omega

theorem dvd_wholeMinute (o : ℤ) : 60 ∣ wholeMinute o := by
  rw [wholeMinute]
  split_ifs <;> omega

theorem natAbs_wholeMinute_le (o : ℤ) : (wholeMinute o).natAbs ≤ o.natAbs := by
  rw [wholeMinute]
  split_ifs <;> omega

theorem map_wholeMinute_of_dvd {o : Option ℤ} (h : ∀ x ∈ o, 60 ∣ x) : o.map wholeMinute = o := by
  cases o with
  | none => rfl
  | some o => exact congrArg some (wholeMinute_eq_iff.mpr (h o rfl))

/-- The datetime with its offset cut to whole minutes. -/
def wholeMinutes (d : Datetime) : Datetime where
  date := d.date
  hour := d.hour
  minute := d.minute
  second := d.second
  microsecond := d.microsecond
  utcoffset := d.utcoffset.map wholeMinute
  valid := by
    obtain ⟨hhour, hminute, hsecond, hus, hoff⟩ := d.valid
    refine ⟨hhour, hminute, hsecond, hus, fun o ho => ?_⟩
    obtain ⟨o', ho', rfl⟩ := Option.map_eq_some_iff.mp ho
    exact (natAbs_wholeMinute_le o').trans_lt (hoff o' ho')

theorem minuteOffset_wholeMinutes (d : Datetime) : d.wholeMinutes.MinuteOffset := by
  intro o ho
  obtain ⟨o', -, rfl⟩ := Option.map_eq_some_iff.mp ho
  exact dvd_wholeMinute o'

theorem wholeMinutes_of_minuteOffset {d : Datetime} (h : d.MinuteOffset) : d.wholeMinutes = d := by
  obtain ⟨date, hour, minute, second, microsecond, utcoffset, valid⟩ := d
  simp only [wholeMinutes, mk.injEq, true_and]
  exact map_wholeMinute_of_dvd h

/-- Cutting the offset moves the instant, unless there is nothing to cut. -/
theorem instant_wholeMinutes_eq_iff (d : Datetime) :
    d.wholeMinutes.instant = d.instant ↔ d.MinuteOffset := by
  have hwall : d.wholeMinutes.wall = d.wall := rfl
  rw [instant, instant, hwall]
  cases h : d.utcoffset with
  | none => simp [wholeMinutes, MinuteOffset, h]
  | some o =>
    simp only [wholeMinutes, MinuteOffset, h, Option.map_some, Option.getD_some,
      Option.mem_some_iff, forall_eq', ← wholeMinute_eq_iff]
    omega

/-- The start of a date, in UTC. -/
def atMidnight (d : Date) : Datetime := ⟨d, 0, 0, 0, 0, some 0, by decide⟩

theorem minuteOffset_atMidnight (d : Date) : (atMidnight d).MinuteOffset := by
  simp [MinuteOffset, atMidnight]

/-! ### Text -/

/-- The fraction of a second: six digits, or nothing. -/
def fractionChars (us : ℕ) : List Char := if us = 0 then [] else '.' :: pad 6 us

/-- `n` minutes as `HH:MM`. -/
def hhmmChars (n : ℕ) : List Char := pad 2 (n / 60) ++ ':' :: pad 2 (n % 60)

/-- The offset: nothing, `Z`, or a signed `HH:MM`. -/
def offsetChars : Option ℤ → List Char
  | none => []
  | some o =>
    if o = 0 then ['Z'] else (if o < 0 then '-' else '+') :: hhmmChars (o.natAbs / 60)

/-- The date and the time of day, with a text for the offset after them. -/
def isoCharsWith (d : Datetime) (offset : List Char) : List Char :=
  pad 4 d.date.year ++ '-' :: (pad 2 d.date.month ++ '-' :: (pad 2 d.date.day ++ 'T' ::
    (pad 2 d.hour ++ ':' :: (pad 2 d.minute ++ ':' :: (pad 2 d.second ++
      (fractionChars d.microsecond ++ offset))))))

/-- The text, as a list of characters. -/
def isoChars (d : Datetime) : List Char := d.isoCharsWith (offsetChars d.utcoffset)

/-- ISO 8601 text, extended format. -/
def isoText (d : Datetime) : String := String.ofList d.isoChars

/-- Read a fraction, of which only the first six digits count. -/
def readFraction : List Char → ℕ × List Char
  | '.' :: cs =>
    let ds := cs.takeWhile Char.isDigit
    (value ((ds ++ List.replicate 6 '0').take 6), cs.dropWhile Char.isDigit)
  | cs => (0, cs)

/-- Read an `HH:MM` that ends the text, in minutes. -/
def readHhmm (cs : List Char) : Option ℕ := do
  let (hours, cs) ← readDigits 2 cs
  let cs ← expect ':' cs
  let (minutes, cs) ← readDigits 2 cs
  if cs = [] ∧ minutes < 60 then some (hours * 60 + minutes) else none

/-- Read an offset that ends the text. -/
def readOffset : List Char → Option (Option ℤ)
  | [] => some none
  | ['Z'] => some (some 0)
  | '+' :: cs => (readHhmm cs).map fun n : ℕ => some (n * 60)
  | '-' :: cs => (readHhmm cs).map fun n : ℕ => some (-(n * 60))
  | _ => none

/-- Read ISO 8601 text, extended format. -/
def ofIsoChars (cs : List Char) : Option Datetime := do
  let (year, cs) ← readDigits 4 cs
  let cs ← expect '-' cs
  let (month, cs) ← readDigits 2 cs
  let cs ← expect '-' cs
  let (day, cs) ← readDigits 2 cs
  let cs ← expect 'T' cs
  let (hour, cs) ← readDigits 2 cs
  let cs ← expect ':' cs
  let (minute, cs) ← readDigits 2 cs
  let cs ← expect ':' cs
  let (second, cs) ← readDigits 2 cs
  let (microsecond, cs) := readFraction cs
  let utcoffset ← readOffset cs
  let date ← Date.mk? year month day
  mk? date hour minute second microsecond utcoffset

/-- Read ISO 8601 text, extended format. -/
def ofIsoText (s : String) : Option Datetime := ofIsoChars s.toList

/-! ### The round trip -/

/-- A text that cannot be taken for more of a fraction. -/
def EndsFraction (cs : List Char) : Prop := ∀ c ∈ cs.head?, c.isDigit = false ∧ c ≠ '.'

/-- An offset text never starts with a digit. -/
theorem endsFraction_offsetChars (o : Option ℤ) : EndsFraction (offsetChars o) := by
  intro c hc
  rcases o with _ | o
  · simp [offsetChars] at hc
  · simp only [offsetChars] at hc
    split_ifs at hc <;> simp only [List.head?_cons, Option.mem_some_iff] at hc <;> subst hc <;>
      decide

theorem readFraction_append {us : ℕ} (hus : us < 1000000) {offset : List Char}
    (hoffset : EndsFraction offset) :
    readFraction (fractionChars us ++ offset) = (us, offset) := by
  rw [fractionChars]
  split_ifs with h
  · subst h
    cases offset with
    | nil => rfl
    | cons c cs =>
      have hdot := (hoffset c rfl).2
      rw [List.nil_append, readFraction]
      exact fun cs' hcs' => hdot (List.cons.inj hcs').1
  · have hdigits : ∀ c ∈ pad 6 us, c.isDigit = true := fun c hc => isDigit_of_mem_pad hc
    have htake : offset.takeWhile Char.isDigit = [] ∧ offset.dropWhile Char.isDigit = offset := by
      cases offset with
      | nil => exact ⟨rfl, rfl⟩
      | cons c cs =>
        have hc := (hoffset c rfl).1
        simp [hc]
    simp only [List.cons_append, readFraction, List.takeWhile_append_of_pos hdigits,
      List.dropWhile_append_of_pos hdigits, htake.1, htake.2, List.append_nil]
    rw [List.take_append_of_le_length (by simp), List.take_of_length_le (by simp),
      value_pad hus]

theorem readHhmm_hhmmChars {n : ℕ} (h : n < 6000) : readHhmm (hhmmChars n) = some n := by
  have hh : n / 60 < 10 ^ 2 := by omega
  have hm : n % 60 < 10 ^ 2 := by omega
  have hm60 : n % 60 < 60 := Nat.mod_lt _ (by decide)
  have hpad := readDigits_pad hm []
  rw [List.append_nil] at hpad
  simp only [readHhmm, hhmmChars, Option.bind_eq_bind, readDigits_pad hh, Option.bind_some,
    expect_cons, hpad, hm60, and_self, if_true, Option.some.injEq]
  omega

/-- The offset of a text is what whole minutes there are in the offset it was written for. -/
theorem readOffset_offsetChars_eq {o : Option ℤ} (hlt : ∀ x ∈ o, x.natAbs < 86400) :
    readOffset (offsetChars o) = some (o.map wholeMinute) := by
  rcases o with _ | o
  · rfl
  have hlt' := hlt o rfl
  have hread : readHhmm (hhmmChars (o.natAbs / 60)) = some (o.natAbs / 60) :=
    readHhmm_hhmmChars (by omega)
  simp only [offsetChars, Option.map_some]
  split_ifs with h0 hneg
  · rw [h0]
    rfl
  · simp only [readOffset, hread, Option.map_some, wholeMinute, if_pos hneg, Option.some.injEq]
    omega
  · simp only [readOffset, hread, Option.map_some, wholeMinute, if_neg hneg, Option.some.injEq]
    omega

theorem readOffset_offsetChars {o : Option ℤ} (hlt : ∀ x ∈ o, x.natAbs < 86400)
    (hmin : ∀ x ∈ o, 60 ∣ x) : readOffset (offsetChars o) = some o := by
  rw [readOffset_offsetChars_eq hlt, map_wholeMinute_of_dvd hmin]

theorem isoCharsWith_eq_append (d : Datetime) (offset : List Char) :
    d.isoCharsWith offset = d.isoCharsWith [] ++ offset := by
  simp only [isoCharsWith, List.append_assoc, List.cons_append, List.append_nil]

theorem not_mem_pad {c : Char} (hc : c.isDigit = false) (n k : ℕ) : c ∉ pad n k := fun h =>
  absurd (isDigit_of_mem_pad h) (by simp [hc])

/-- The characters before the offset are digits and separators. -/
theorem not_mem_isoCharsWith (d : Datetime) {c : Char} (hc : c.isDigit = false)
    (hsep : c ∉ ['-', 'T', ':', '.']) : c ∉ d.isoCharsWith [] := by
  have hpad : ∀ n k, c ∉ pad n k := not_mem_pad hc
  have hfraction : c ∉ fractionChars d.microsecond := by
    rw [fractionChars]
    split_ifs <;> simp_all
  simp_all [isoCharsWith]

/-- There is no `Z` in an offset that is not zero. -/
theorem zulu_not_mem_offsetChars {o : Option ℤ} (h : o ≠ some 0) : 'Z' ∉ offsetChars o := by
  cases o with
  | none => simp [offsetChars]
  | some o =>
    have hne : o ≠ 0 := fun ho => h (congrArg some ho)
    have hpad : ∀ n k, 'Z' ∉ pad n k := not_mem_pad (by decide)
    simp only [offsetChars, if_neg hne, hhmmChars]
    split_ifs <;> simp [hpad]

/-- The text is made of digits, separators, signs and `Z`. -/
theorem not_mem_isoText (d : Datetime) {c : Char} (hc : c.isDigit = false)
    (hsep : c ∉ ['-', 'T', ':', '.', '+', 'Z']) : c ∉ d.isoText.toList := by
  have hpad : ∀ n k, c ∉ pad n k := not_mem_pad hc
  have hoffset : c ∉ offsetChars d.utcoffset := by
    cases d.utcoffset with
    | none => simp [offsetChars]
    | some o =>
      simp only [offsetChars, hhmmChars]
      split_ifs <;> simp_all
  have hbefore := d.not_mem_isoCharsWith hc (by simp_all)
  rw [isoText, String.toList_ofList, isoChars, isoCharsWith_eq_append, List.mem_append]
  exact not_or_intro hbefore hoffset

/-- Whatever offset the text has, the date and the time of day are read back. -/
theorem ofIsoChars_isoCharsWith (d : Datetime) {offset : List Char}
    (hoffset : EndsFraction offset) :
    ofIsoChars (d.isoCharsWith offset) = (readOffset offset).bind fun o =>
      mk? d.date d.hour d.minute d.second d.microsecond o := by
  obtain ⟨-, hyear, -, hmonth, -, hday⟩ := d.date.valid
  obtain ⟨hhour, hminute, hsecond, hus, -⟩ := d.valid
  have hday' : d.date.day < 10 ^ 2 := by
    have : daysInMonth d.date.year d.date.month ≤ 31 := by
      rw [daysInMonth]
      split_ifs <;> omega
    omega
  simp only [ofIsoChars, isoCharsWith, Option.bind_eq_bind,
    readDigits_pad (show d.date.year < 10 ^ 4 by omega),
    readDigits_pad (show d.date.month < 10 ^ 2 by omega), readDigits_pad hday',
    readDigits_pad (show d.hour < 10 ^ 2 by omega),
    readDigits_pad (show d.minute < 10 ^ 2 by omega),
    readDigits_pad (show d.second < 10 ^ 2 by omega), expect_cons, Option.bind_some,
    readFraction_append hus hoffset, Date.mk?_self]

/-- **What is read for the text of a datetime**: its offset is cut to whole minutes. -/
theorem ofIsoChars_isoChars_eq (d : Datetime) : ofIsoChars d.isoChars = some d.wholeMinutes := by
  obtain ⟨-, -, -, -, hoff⟩ := d.valid
  rw [isoChars, ofIsoChars_isoCharsWith d (endsFraction_offsetChars _),
    readOffset_offsetChars_eq hoff, Option.bind_some]
  exact mk?_self d.wholeMinutes

theorem ofIsoText_isoText_eq (d : Datetime) : ofIsoText d.isoText = some d.wholeMinutes := by
  rw [ofIsoText, isoText, String.toList_ofList, ofIsoChars_isoChars_eq]

/-- **Reading undoes writing**, for datetimes whose offset the text can express. -/
theorem ofIsoText_isoText {d : Datetime} (hmin : d.MinuteOffset) :
    ofIsoText d.isoText = some d := by
  rw [ofIsoText_isoText_eq, wholeMinutes_of_minuteOffset hmin]

end Datetime
