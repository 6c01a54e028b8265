import Vfobs.Foundations.Json
import Vfobs.Foundations.KeyOrder
import Mathlib.Algebra.BigOperators.Group.List.Basic
import Mathlib.Algebra.Ring.Int.Defs
import Mathlib.Algebra.Ring.Rat
import Mathlib.Data.List.ReduceOption

/-!
# A fragment of SQL

Queries over a table held as a list of rows. A condition has one of SQL's three truth values
for a row, `none` being unknown: a comparison with `NULL` is unknown, `AND` is Kleene's, and
`WHERE` keeps the rows for which the condition is true. `conj_eq_true_iff` and
`equals_eq_true_iff` say when that is.

Aggregates skip `NULL` and are `NULL` over no value. A cast to `int` raises outside 32 bits
(`castInt`), and a sum of `int`s is accumulated in a `bigint` (`sumInt`), which holds it
exactly as long as the exact sum fits in 64 bits (`sumInt_eq_iff`).
-/

namespace Sql

variable {ρ α : Type*}

/-! ### Conditions -/

/-- The truth value of a condition; `none` is unknown. -/
abbrev Truth := Option Bool

/-- `AND`. -/
def Truth.and : Truth → Truth → Truth
  | some false, _ => some false
  | _, some false => some false
  | some true, some true => some true
  | _, _ => none

@[simp]
theorem Truth.and_eq_true_iff {s t : Truth} :
    s.and t = some true ↔ s = some true ∧ t = some true := by
  rcases s with _ | _ | _ <;> rcases t with _ | _ | _ <;> decide

/-- A condition on the rows of a table. -/
abbrev Cond (ρ : Type*) := ρ → Truth

/-- `column = value`. -/
def equals (column : ρ → Option String) (value : String) : Cond ρ := fun r =>
  (column r).map fun v => decide (v = value)

/-- `column >= value`. -/
def atLeast (column : ρ → ℤ) (value : ℤ) : Cond ρ := fun r => some (decide (value ≤ column r))

/-- `column IS NOT NULL`. -/
def isNotNull (column : ρ → Option α) : Cond ρ := fun r => some (column r).isSome

/-- The clauses, joined by `AND`. -/
def conj (clauses : List (Cond ρ)) : Cond ρ := fun r =>
  clauses.foldl (fun t clause => t.and (clause r)) (some true)

@[simp]
theorem equals_eq_true_iff {column : ρ → Option String} {value : String} {r : ρ} :
    equals column value r = some true ↔ column r = some value := by
  simp [equals]

@[simp]
theorem atLeast_eq_true_iff {column : ρ → ℤ} {value : ℤ} {r : ρ} :
    atLeast column value r = some true ↔ value ≤ column r := by
  simp [atLeast]

@[simp]
theorem isNotNull_eq_true_iff {column : ρ → Option α} {r : ρ} :
    isNotNull column r = some true ↔ (column r).isSome := by
  simp [isNotNull]

private theorem foldl_and_eq_true_iff {r : ρ} (clauses : List (Cond ρ)) (t : Truth) :
    clauses.foldl (fun t clause => t.and (clause r)) t = some true ↔
      t = some true ∧ ∀ clause ∈ clauses, clause r = some true := by
  induction clauses generalizing t with
  | nil => simp
  | cons c clauses ih => simp [ih, and_assoc]

/-- A conjunction is true when every clause is. -/
theorem conj_eq_true_iff {clauses : List (Cond ρ)} {r : ρ} :
    conj clauses r = some true ↔ ∀ clause ∈ clauses, clause r = some true := by
  rw [conj, foldl_and_eq_true_iff, eq_self_iff_true, true_and]

/-- `split_part(s, sep, 1)`: what comes before the first `sep`, all of `s` if there is none. -/
def splitPartOne (s : String) (sep : Char) : String :=
  String.ofList (s.toList.takeWhile (· ≠ sep))

/-! ### Queries -/

/-- `WHERE`: the rows for which the condition is true. -/
def filterWhere (cond : Cond ρ) (rows : List ρ) : List ρ := rows.filter fun r => cond r = some true

@[simp]
theorem mem_filterWhere {cond : Cond ρ} {rows : List ρ} {r : ρ} :
    r ∈ filterWhere cond rows ↔ r ∈ rows ∧ cond r = some true := by
  simp [filterWhere]

/-- `WHERE cond ORDER BY key ASC LIMIT n`. -/
def selectAsc (key : ρ → ℤ) (cond : Cond ρ) (n : ℕ) (rows : List ρ) : List ρ :=
  (KeyOrder.sort key (filterWhere cond rows)).take n

/-- `WHERE cond ORDER BY key DESC LIMIT 1`. -/
def selectLast (key : ρ → ℤ) (cond : Cond ρ) (rows : List ρ) : Option ρ :=
  (KeyOrder.sort (fun r => OrderDual.toDual (key r)) (filterWhere cond rows)).head?

/-- `COUNT(*)`. -/
def count (cond : Cond ρ) (rows : List ρ) : ℕ := (filterWhere cond rows).length

/-! ### Domains -/

/-- The values of a `smallint`. -/
def InSmallint (n : ℤ) : Prop := -2 ^ 15 ≤ n ∧ n < 2 ^ 15

instance (n : ℤ) : Decidable (InSmallint n) := inferInstanceAs (Decidable (_ ∧ _))

/-- The values of an `int`. -/
def InInt (n : ℤ) : Prop := -2 ^ 31 ≤ n ∧ n < 2 ^ 31

instance (n : ℤ) : Decidable (InInt n) := inferInstanceAs (Decidable (_ ∧ _))

/-- The values of a `bigint`. -/
def InBigint (n : ℤ) : Prop := -2 ^ 63 ≤ n ∧ n < 2 ^ 63

instance (n : ℤ) : Decidable (InBigint n) := inferInstanceAs (Decidable (_ ∧ _))

/-- The values of a `text`: all characters but NUL. -/
def InText (s : String) : Prop := '\x00' ∉ s.toList

instance (s : String) : Decidable (InText s) := inferInstanceAs (Decidable (_ ∉ _))

/-- The values of a `jsonb`: what its texts, keys included, are made of is `text`. -/
def InJsonb (j : Json) : Prop := ∀ s ∈ j.texts, InText s

instance (j : Json) : Decidable (InJsonb j) := inferInstanceAs (Decidable (∀ s ∈ j.texts, _))

section inJsonb

@[simp]
theorem inJsonb_null : InJsonb .null := nofun

@[simp]
theorem inJsonb_int (n : ℤ) : InJsonb (.int n) := nofun

@[simp]
theorem inJsonb_float (q : ℚ) : InJsonb (.float q) := nofun

@[simp]
theorem inJsonb_str {s : String} : InJsonb (.str s) ↔ InText s := by simp [InJsonb, Json.texts]

@[simp]
theorem inJsonb_arr_str {items : List String} :
    InJsonb (.arr (items.map .str)) ↔ ∀ s ∈ items, InText s := by
  rw [InJsonb, Json.texts_arr_str]

@[simp]
theorem inJsonb_obj_str {items : List (String × String)} :
    InJsonb (.obj (items.map fun p => (p.1, .str p.2))) ↔
      ∀ s ∈ items.flatMap fun p => [p.1, p.2], InText s := by
  rw [InJsonb, Json.texts_obj_str]

@[simp]
theorem inJsonb_obj_nil : InJsonb (.obj []) := nofun

@[simp]
theorem inJsonb_obj_cons {key : String} {v : Json} {fs : List (String × Json)} :
    InJsonb (.obj ((key, v) :: fs)) ↔ InText key ∧ InJsonb v ∧ InJsonb (.obj fs) := by
  simp [InJsonb, or_imp, forall_and]

@[simp]
theorem inJsonb_dumpOption {β : Type} [JsonCodec β] {o : Option β} :
    InJsonb (JsonCodec.dumpOption o) ↔ ∀ b ∈ o, InJsonb (JsonCodec.dump b) := by
  cases o <;> simp [JsonCodec.dumpOption]

@[simp]
theorem inText_isoText (d : Datetime) : InText d.isoText :=
  d.not_mem_isoText (by decide) (by decide)

end inJsonb

/-- A value that a statement binds. A text that is to be cast to `jsonb` is held as the JSON
value it is read as, `none` for a text that is not JSON. -/
inductive Value
  | null
  | int (n : ℤ)
  | text (s : String)
  | timestamp (d : Datetime)
  | json (j : Option Json)

/-- The value `NULL`. -/
def Value.isNull : Value → Bool
  | .null => true
  | _ => false

/-- A type of columns. -/
inductive ColumnType
  | smallint
  | bigint
  | text
  | timestamptz
  | jsonb
  deriving DecidableEq

/-- The domain of a type, `NULL` apart. Every `datetime` is a `timestamptz`. -/
def ColumnType.Holds (type : ColumnType) : Value → Prop
  | .null => False
  | .int n => (type = .smallint ∧ InSmallint n) ∨ (type = .bigint ∧ InBigint n)
  | .text s => type = .text ∧ InText s
  | .timestamp _ => type = .timestamptz
  | .json j => type = .jsonb ∧ ∃ value ∈ j, InJsonb value

instance (type : ColumnType) : DecidablePred type.Holds
  | .null => inferInstanceAs (Decidable False)
  | .int _ => inferInstanceAs (Decidable (_ ∨ _))
  | .text _ => inferInstanceAs (Decidable (_ ∧ _))
  | .timestamp _ => inferInstanceAs (Decidable (_ = _))
  | .json none => .isFalse (by simp [ColumnType.Holds])
  | .json (some j) => decidable_of_iff (type = .jsonb ∧ InJsonb j) (by simp [ColumnType.Holds])

/-- A column of a table. -/
structure Column where
  name : String
  type : ColumnType
  nullable : Bool

/-- The domain of a column: `NULL` where it may be, else what its type holds. -/
def Column.Holds (c : Column) (value : Value) : Prop :=
  (value.isNull ∧ c.nullable) ∨ c.type.Holds value

instance (c : Column) : DecidablePred c.Holds := fun _ => inferInstanceAs (Decidable (_ ∨ _))

/-! ### Numbers -/

/-- `n::int`; `none` when it raises. -/
def castInt (n : ℤ) : Option ℤ := if InInt n then some n else none

/-- `(j->>key)::int`, for a field written by a record's dump: `NULL` for a missing or null
field, and `none` when the cast raises. -/
def fieldAsInt (key : String) (j : Json) : Option (Option ℤ) :=
  match j.get? key with
  | none | some .null => some none
  | some (.int n) => (castInt n).map some
  | some _ => none

/-- `(j->>key)::numeric`. -/
def fieldAsNumeric (key : String) (j : Json) : Option (Option ℚ) :=
  match j.get? key with
  | none | some .null => some none
  | some (.int n) => some (some n)
  | some (.float q) => some (some q)
  | some _ => none

theorem fieldAsInt_of_get? {key : String} {j : Json} {o : Option ℤ}
    (h : j.get? key = some (JsonCodec.dumpOption o)) :
    fieldAsInt key j = if ∀ n ∈ o, InInt n then some o else none := by
  rcases o with _ | n
  · simp [fieldAsInt, h, JsonCodec.dumpOption]
  · simp only [fieldAsInt, h, JsonCodec.dumpOption, JsonCodec.dump, castInt, Option.mem_some_iff,
      forall_eq']
    split_ifs <;> rfl

theorem fieldAsNumeric_of_get? {key : String} {j : Json} {o : Option ℚ}
    (h : j.get? key = some (JsonCodec.dumpOption o)) : fieldAsNumeric key j = some o := by
  rcases o with _ | q <;> simp [fieldAsNumeric, h, JsonCodec.dumpOption, JsonCodec.dump]

/-- A column of partial values is defined when each of them is. -/
theorem mapM_ite {β : Type*} (p : α → Prop) [DecidablePred p] (f : α → β) (l : List α) :
    l.mapM (fun a => if p a then some (f a) else none) =
      if ∀ a ∈ l, p a then some (l.map f) else none := by
  induction l with
  | nil => rfl
  | cons a l ih =>
    simp only [List.mapM_cons, ih, List.forall_mem_cons, List.map_cons]
    split_ifs <;> simp_all

/-- An `int` column read off a field of dumped records. -/
theorem mapM_fieldAsInt {β : Type} [JsonCodec β] (key : String) (field : β → Option ℤ)
    (hget : ∀ b, (JsonCodec.dump b).get? key = some (JsonCodec.dumpOption (field b)))
    (l : List β) :
    (l.map JsonCodec.dump).mapM (fieldAsInt key) =
      if ∀ b ∈ l, ∀ n ∈ field b, InInt n then some (l.map field) else none := by
  have hfield : fieldAsInt key ∘ JsonCodec.dump =
      fun b => if ∀ n ∈ field b, InInt n then some (field b) else none :=
    funext fun b => fieldAsInt_of_get? (hget b)
  rw [List.mapM_map, hfield, mapM_ite]

/-- A `numeric` column read off a field of dumped records. -/
theorem mapM_fieldAsNumeric {β : Type} [JsonCodec β] (key : String) (field : β → Option ℚ)
    (hget : ∀ b, (JsonCodec.dump b).get? key = some (JsonCodec.dumpOption (field b)))
    (l : List β) :
    (l.map JsonCodec.dump).mapM (fieldAsNumeric key) = some (l.map field) := by
  have hfield : fieldAsNumeric key ∘ JsonCodec.dump =
      fun b => if True then some (field b) else none :=
    funext fun b => by rw [Function.comp_apply, fieldAsNumeric_of_get? (hget b), if_pos trivial]
  rw [List.mapM_map, hfield, mapM_ite, if_pos fun _ _ => trivial]

/-- `COALESCE(SUM(xs), 0)` over `numeric`. -/
def sumNumeric (xs : List (Option ℚ)) : ℚ := xs.reduceOption.sum

/-- `COALESCE(SUM(xs), 0)` over `int`: the accumulator is a `bigint`, without a check. -/
def sumInt (xs : List (Option ℤ)) : ℤ :=
  xs.reduceOption.foldl (fun acc x => (acc + x).bmod (2 ^ 64)) 0

private theorem foldl_bmod (xs : List ℤ) (acc : ℤ) :
    xs.foldl (fun acc x => (acc + x).bmod (2 ^ 64)) (acc.bmod (2 ^ 64)) =
      (acc + xs.sum).bmod (2 ^ 64) := by
  induction xs generalizing acc with
  | nil => simp
  | cons x xs ih =>
    rw [List.foldl_cons, Int.bmod_add_bmod, ih, List.sum_cons, Int.add_assoc]

theorem sumInt_eq_bmod (xs : List (Option ℤ)) :
    sumInt xs = xs.reduceOption.sum.bmod (2 ^ 64) := by
  have h := foldl_bmod xs.reduceOption 0
  rwa [Int.zero_add] at h

theorem sum_reduceOption {M : Type*} [AddCommMonoid M] (xs : List (Option M)) :
    xs.reduceOption.sum = (xs.map fun x => x.getD 0).sum := by
  induction xs with
  | nil => rfl
  | cons x xs ih =>
    cases x with
    | none => simp [List.reduceOption_cons_of_none, ih]
    | some x => simp [List.reduceOption_cons_of_some, ih]

end Sql
