import Vfobs.Foundations.Datetime
import Mathlib.Data.Rat.Defs

/-!
# JSON values and record codecs

`Json` is a JSON value as Python's `json` module holds it: integers and floats are told
apart, floats are exact rationals (the finite ones), an object is the list of its fields.

A `JsonCodec α` says how a value of `α` is dumped into JSON and validated out of it, and
carries the law that validation undoes dumping. A record type gets its codec from those of
its fields (`ofFields`), where `required` and `nullable` read one field of an object.
-/

/-- A JSON value. -/
inductive Json
  | null
  | bool (b : Bool)
  | int (n : ℤ)
  | float (q : ℚ)
  | str (s : String)
  | arr (items : List Json)
  | obj (fields : List (String × Json))

namespace Json

/-- The fields of an object; other values have none. -/
def fields : Json → List (String × Json)
  | obj fs => fs
  | _ => []

/-- `d.get(key)` of a dictionary. -/
def get? (j : Json) (key : String) : Option Json := j.fields.lookup key

@[simp]
theorem get?_obj (fs : List (String × Json)) (key : String) :
    (obj fs).get? key = fs.lookup key := rfl

/-- The value `null`. -/
def isNull : Json → Bool
  | null => true
  | _ => false

/-- An integer. -/
def asInt? : Json → Option ℤ
  | int n => some n
  | _ => none

/-- A text. -/
def asStr? : Json → Option String
  | str s => some s
  | _ => none

/-- An array. -/
def asArr? : Json → Option (List Json)
  | arr items => some items
  | _ => none

mutual

/-- The texts of a value, the keys of its objects among them. -/
def texts : Json → List String
  | str s => [s]
  | arr items => textsOfItems items
  | obj fs => textsOfFields fs
  | null | bool _ | int _ | float _ => []

/-- The texts of the items of an array. -/
def textsOfItems : List Json → List String
  | [] => []
  | j :: items => texts j ++ textsOfItems items

/-- The texts of the fields of an object. -/
def textsOfFields : List (String × Json) → List String
  | [] => []
  | (key, v) :: fs => key :: (texts v ++ textsOfFields fs)

end

@[simp]
theorem texts_obj_cons (key : String) (v : Json) (fs : List (String × Json)) :
    (obj ((key, v) :: fs)).texts = key :: (v.texts ++ (obj fs).texts) := rfl

theorem texts_arr_str (items : List String) : (arr (items.map str)).texts = items := by
  show textsOfItems _ = _
  induction items with
  | nil => rfl
  | cons s items ih => exact congrArg (s :: ·) ih

theorem texts_obj_str (items : List (String × String)) :
    (obj (items.map fun p => (p.1, str p.2))).texts = items.flatMap fun p => [p.1, p.2] := by
  induction items with
  | nil => rfl
  | cons p items ih => rw [List.map_cons, texts_obj_cons, ih, List.flatMap_cons]; rfl

end Json

/-- `dict[str, str]`: one value for each key. -/
abbrev StrDict : Type := { items : List (String × String) // (items.map Prod.fst).Nodup }

/-- A datetime that came out of JSON: its offset has whole minutes. -/
abbrev IsoDatetime : Type := { d : Datetime // d.MinuteOffset }

/-- The start of a date, in UTC. -/
def isoMidnight (d : Calendar.Date) : IsoDatetime :=
  ⟨.atMidnight d, Datetime.minuteOffset_atMidnight d⟩

/-- How a type is dumped into JSON and validated out of it. -/
class JsonCodec (α : Type) where
  /-- The JSON form of a value. -/
  dump : α → Json
  /-- Read a value; `none` is a validation error. -/
  validate : Json → Option α
  validate_dump : ∀ a, validate (dump a) = some a
  dump_ne_null : ∀ a, dump a ≠ .null

namespace JsonCodec

attribute [simp] validate_dump dump_ne_null

variable {α : Type} [JsonCodec α]

/-- The JSON form of an `α | None`. -/
def dumpOption : Option α → Json
  | none => .null
  | some a => dump a

/-- Read an `α | None`. -/
def validateOption : Json → Option (Option α)
  | .null => some none
  | j => (validate j).map some

@[simp]
theorem validateOption_dumpOption (o : Option α) : validateOption (dumpOption o) = some o := by
  rcases o with _ | a
  · rfl
  · have hne := dump_ne_null a
    cases hj : dump a with
    | null => exact absurd hj hne
    | bool | int | float | str | arr | obj =>
      simp only [dumpOption, validateOption, hj]
      rw [← hj, validate_dump]
      rfl

theorem isNull_dumpOption (o : Option α) : (dumpOption o).isNull = o.isNone := by
  rcases o with _ | a
  · rfl
  · have hne := dump_ne_null a
    cases hj : dump a with
    | null => exact absurd hj hne
    | bool | int | float | str | arr | obj => simp [dumpOption, hj, Json.isNull]

/-- A field that must be there. -/
def required (fs : List (String × Json)) (key : String) : Option α :=
  (fs.lookup key).bind validate

/-- A field that defaults to `None`. -/
def nullable (fs : List (String × Json)) (key : String) : Option (Option α) :=
  match fs.lookup key with
  | none => some none
  | some v => validateOption v

/-- A field with a default. -/
def defaulted (fs : List (String × Json)) (key : String) (default : α) : Option α :=
  match fs.lookup key with
  | none => some default
  | some v => validate v

section lookup

variable {fs : List (String × Json)} {key key' : String} {v : Json}

@[simp]
theorem required_cons_self (a : α) : required ((key, dump a) :: fs) key = some a := by
  rw [required, List.lookup_cons_self, Option.bind_some, validate_dump]

@[simp]
theorem required_cons_ne (h : key ≠ key') :
    required ((key', v) :: fs) key = (required fs key : Option α) := by
  rw [required, List.lookup_cons, beq_false_of_ne h, required]

@[simp]
theorem nullable_cons_self (o : Option α) :
    nullable ((key, dumpOption o) :: fs) key = some o := by
  simp only [nullable, List.lookup_cons_self, validateOption_dumpOption]

@[simp]
theorem nullable_cons_ne (h : key ≠ key') :
    nullable ((key', v) :: fs) key = (nullable fs key : Option (Option α)) := by
  simp only [nullable, List.lookup_cons, beq_false_of_ne h]

@[simp]
theorem defaulted_cons_self (a default : α) :
    defaulted ((key, dump a) :: fs) key default = some a := by
  simp only [defaulted, List.lookup_cons_self, validate_dump]

@[simp]
theorem defaulted_cons_ne {default : α} (h : key ≠ key') :
    defaulted ((key', v) :: fs) key default = defaulted fs key default := by
  simp only [defaulted, List.lookup_cons, beq_false_of_ne h]

end lookup

/-- The codec of a record from its fields: what `read` makes of the fields of an object. -/
@[reducible]
def ofFields (write : α → List (String × Json)) (read : List (String × Json) → Option α)
    (h : ∀ a, read (write a) = some a) : JsonCodec α where
  dump a := .obj (write a)
  validate
    | .obj fs => read fs
    | _ => none
  validate_dump := h
  dump_ne_null _ := nofun

/-! ### Codecs of the basic types -/

instance : JsonCodec String where
  dump := .str
  validate := Json.asStr?
  validate_dump _ := rfl
  dump_ne_null _ := nofun

instance : JsonCodec ℤ where
  dump := .int
  validate := Json.asInt?
  validate_dump _ := rfl
  dump_ne_null _ := nofun

/-- A finite `float`; an integer is read as one. -/
instance : JsonCodec ℚ where
  dump := .float
  validate
    | .float q => some q
    | .int n => some n
    | _ => none
  validate_dump _ := rfl
  dump_ne_null _ := nofun

/-- Reading back a list written element by element. -/
private theorem mapM_map_eq_some {β γ : Type} (write : β → γ) (read : γ → Option β)
    (h : ∀ b, read (write b) = some b) (items : List β) :
    (items.map write).mapM read = some items := by
  induction items with
  | nil => rfl
  | cons b items ih => rw [List.map_cons, List.mapM_cons, h, ih]; rfl

instance : JsonCodec (List String) where
  dump items := .arr (items.map .str)
  validate j := j.asArr?.bind fun items => items.mapM Json.asStr?
  validate_dump items := mapM_map_eq_some Json.str Json.asStr? (fun _ => rfl) items
  dump_ne_null _ := nofun

/-- The text values of an object. -/
def strItems (fs : List (String × Json)) : Option (List (String × String)) :=
  fs.mapM fun f => f.2.asStr?.map fun s => (f.1, s)

theorem strItems_map (items : List (String × String)) :
    strItems (items.map fun p => (p.1, .str p.2)) = some items :=
  mapM_map_eq_some (fun p : String × String => (p.1, Json.str p.2)) _ (fun _ => rfl) items

instance : JsonCodec StrDict where
  dump d := .obj (d.1.map fun p => (p.1, .str p.2))
  validate
    | .obj fs => (strItems fs).bind fun items =>
        if h : (items.map Prod.fst).Nodup then some ⟨items, h⟩ else none
    | _ => none
  validate_dump d := by
    simp only [strItems_map, Option.bind_some]
    rw [dif_pos d.2]
  dump_ne_null _ := nofun

instance : JsonCodec IsoDatetime where
  dump d := .str d.1.isoText
  validate j := j.asStr?.bind fun s => (Datetime.ofIsoText s).bind fun d =>
    if h : d.MinuteOffset then some ⟨d, h⟩ else none
  validate_dump d := by
    simp only [Json.asStr?, Option.bind_some, Datetime.ofIsoText_isoText d.2]
    rw [dif_pos d.2]
  dump_ne_null _ := nofun

/-- The datetime that JSON has of a datetime. -/
def toIso (d : Datetime) : IsoDatetime := ⟨d.wholeMinutes, d.minuteOffset_wholeMinutes⟩

/-- **What is read for the text of any datetime.** -/
theorem validate_isoText (d : Datetime) : validate (.str d.isoText) = some (toIso d) := by
  simp only [validate, Json.asStr?, Option.bind_some, Datetime.ofIsoText_isoText_eq]
  rw [dif_pos d.minuteOffset_wholeMinutes, toIso]

@[simp]
theorem required_isoText_cons_self (fs : List (String × Json)) (key : String) (d : Datetime) :
    required ((key, .str d.isoText) :: fs) key = some (toIso d) := by
  rw [required, List.lookup_cons_self, Option.bind_some, validate_isoText]

end JsonCodec
