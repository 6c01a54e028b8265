import Vfobs.Foundations.Json

/-!
# JSON Schema

The keywords of JSON Schema that say something about a value, as far as schemas of records use
them: `Schema.accepts` is validation. Annotations (`title`, `default`) say nothing about values and
are left out, and a `$ref` is written as what it refers to. Whether `format` is checked, and which
floats count as integers, depends on the validator (`Dialect`).

A codec is *described* by a schema (`Described`) when the schema accepts what the codec dumps, and
the codec reads what the schema accepts, if formats are checked and integers are written as such.
The codec of a record is described by the schema of its fields, on which its reader is total
(`ReadsAccepted`), bind by bind.
-/

open JsonCodec

namespace Json

mutual

/-- The keys of every object in the value are distinct. -/
def DistinctKeys : Json → Prop
  | obj fs => (fs.map Prod.fst).Nodup ∧ DistinctInFields fs
  | arr items => DistinctInItems items
  | null | bool _ | int _ | float _ | str _ => True

/-- And so in the items of an array. -/
def DistinctInItems : List Json → Prop
  | [] => True
  | j :: items => DistinctKeys j ∧ DistinctInItems items

/-- And so in the fields of an object. -/
def DistinctInFields : List (String × Json) → Prop
  | [] => True
  | (_, v) :: fs => DistinctKeys v ∧ DistinctInFields fs

end

theorem DistinctInFields.lookup {fs : List (String × Json)} (h : DistinctInFields fs) {key : String}
    {v : Json} (hv : fs.lookup key = some v) : v.DistinctKeys := by
  induction fs with
  | nil => exact absurd hv (by simp)
  | cons f fs ih =>
    rw [List.lookup_cons] at hv
    cases hkey : key == f.1 with
    | true =>
      rw [hkey] at hv
      exact Option.some.inj hv ▸ h.1
    | false =>
      rw [hkey] at hv
      exact ih h.2 hv

end Json

/-- The types of JSON Schema that are used. -/
inductive JsonType
  | null
  | string
  | integer
  | number
  | array
  | object

/-- A schema: one keyword, or those of a schema object together. -/
inductive Schema
  | type (t : JsonType)
  | const (value : String)
  | enum (values : List String)
  | minLength (n : ℕ)
  | format (name : String)
  | anyOf (schemas : List Schema)
  | items (schema : Schema)
  | properties (props : List (String × Schema))
  /-- Beside no `properties`. -/
  | additionalProperties (schema : Schema)
  | required (keys : List String)
  | all (schemas : List Schema)

/-- What validators differ in. -/
structure Dialect where
  /-- Whether a text has a format. -/
  format : String → String → Bool
  /-- Whether a float counts as an integer. -/
  integral : ℚ → Bool

/-- Whether a value has a type. -/
def JsonType.has (D : Dialect) : JsonType → Json → Bool
  | .null, .null => true
  | .string, .str _ => true
  | .integer, .int _ => true
  | .integer, .float q => D.integral q
  | .number, .int _ => true
  | .number, .float _ => true
  | .array, .arr _ => true
  | .object, .obj _ => true
  | _, _ => false

namespace Dialect

/-- The validator that takes formats for annotations, and floats with an integral value for
integers. -/
def draft202012 : Dialect := ⟨fun _ _ => true, fun q => q.den = 1⟩

/-- The validator that checks dates, and takes only what is written as an integer for one. -/
def strict : Dialect where
  format name s := name ≠ "date-time" || (validate (.str s) : Option IsoDatetime).isSome
  integral _ := false

/-- The texts of datetimes have their format. -/
def AdmitsIso (D : Dialect) : Prop := ∀ d : Datetime, D.format "date-time" d.isoText = true

theorem admitsIso_draft202012 : draft202012.AdmitsIso := fun _ => rfl

end Dialect

namespace Schema

variable (D : Dialect)

mutual

/-- Whether a schema accepts a value. A keyword says nothing about the values that it is not
meant for. -/
def accepts : Schema → Json → Bool
  | type t, v => t.has D v
  | const value, v => v.asStr? = some value
  | enum values, v => v.asStr?.any values.contains
  | minLength n, v => v.asStr?.all fun s => n ≤ s.length
  | format name, v => v.asStr?.all (D.format name)
  | anyOf schemas, v => acceptsAny schemas v
  | items schema, v => v.asArr?.all fun items => items.all (accepts schema)
  | properties props, v => acceptsProperties props v.fields
  | additionalProperties schema, v => v.fields.all fun f => accepts schema f.2
  -- on anything but an object `required` says nothing
  | required keys, .obj fs => keys.all fun key => (fs.lookup key).isSome
  | required _, _ => true
  | all schemas, v => acceptsAll schemas v

/-- Whether one of the schemas does. -/
def acceptsAny : List Schema → Json → Bool
  | [], _ => false
  | schema :: schemas, v => accepts schema v || acceptsAny schemas v

/-- Whether all of the schemas do. -/
def acceptsAll : List Schema → Json → Bool
  | [], _ => true
  | schema :: schemas, v => accepts schema v && acceptsAll schemas v

/-- Whether each property that is there is accepted by its schema. -/
def acceptsProperties : List (String × Schema) → List (String × Json) → Bool
  | [], _ => true
  | (key, schema) :: props, fs =>
    (fs.lookup key).all (accepts schema) && acceptsProperties props fs

end

/-! ### The shapes of schemas -/

/-- `{"type": "string"}`. -/
abbrev string : Schema := type .string

/-- `{"minLength": 1, "type": "string"}`. -/
abbrev nonempty : Schema := all [minLength 1, type .string]

/-- `{"format": "date-time", "type": "string"}`. -/
abbrev dateTime : Schema := all [format "date-time", type .string]

/-- `{"const": .., "type": "string"}`. -/
abbrev literal (value : String) : Schema := all [const value, type .string]

/-- `{"enum": [..], "type": "string"}`. -/
abbrev oneOf (values : List String) : Schema := all [enum values, type .string]

/-- `{"type": "integer"}`. -/
abbrev integer : Schema := type .integer

/-- `{"type": "number"}`. -/
abbrev number : Schema := type .number

/-- `{"anyOf": [.., {"type": "null"}]}`. -/
abbrev nullable (schema : Schema) : Schema := anyOf [schema, type .null]

/-- `{"items": .., "type": "array"}`. -/
abbrev arrayOf (schema : Schema) : Schema := all [items schema, type .array]

/-- `{"additionalProperties": .., "type": "object"}`. -/
abbrev dictOf (schema : Schema) : Schema := all [additionalProperties schema, type .object]

/-- `{"properties": {..}, "required": [..], "type": "object"}`. -/
abbrev record (props : List (String × Schema)) (keys : List String) : Schema :=
  all [properties props, required keys, type .object]

variable {D} {j : Json} {fs : List (String × Json)} {props : List (String × Schema)}
  {keys : List String}

theorem accepts_string_iff : string.accepts D j = true ↔ ∃ s, j = .str s := by
  cases j <;> simp [accepts, JsonType.has]

theorem accepts_nonempty_iff : nonempty.accepts D j = true ↔ ∃ s, j = .str s ∧ s ≠ "" := by
  have hlength : ∀ s : String, 1 ≤ s.length ↔ s ≠ "" := fun s => by
    rw [Nat.one_le_iff_ne_zero, ne_eq, String.length_eq_zero_iff]
  cases j <;> simp [accepts, acceptsAll, JsonType.has, Json.asStr?, hlength]

theorem accepts_literal_iff {value : String} :
    (literal value).accepts D j = true ↔ j = .str value := by
  cases j <;> simp [accepts, acceptsAll, JsonType.has, Json.asStr?]

theorem accepts_dateTime_iff :
    dateTime.accepts D j = true ↔ ∃ s, j = .str s ∧ D.format "date-time" s = true := by
  cases j <;> simp [accepts, acceptsAll, JsonType.has, Json.asStr?]

theorem accepts_arrayOf_iff {schema : Schema} :
    (arrayOf schema).accepts D j = true ↔
      ∃ items, j = .arr items ∧ ∀ v ∈ items, schema.accepts D v = true := by
  cases j <;> simp [accepts, acceptsAll, JsonType.has, Json.asArr?]

theorem accepts_dictOf_iff {schema : Schema} :
    (dictOf schema).accepts D j = true ↔
      ∃ fs, j = .obj fs ∧ ∀ f ∈ fs, schema.accepts D f.2 = true := by
  cases j <;> simp [accepts, acceptsAll, JsonType.has, Json.fields]

theorem accepts_oneOf_iff {values : List String} :
    (oneOf values).accepts D j = true ↔ ∃ s ∈ values, j = .str s := by
  cases j <;> simp [accepts, acceptsAll, JsonType.has, Json.asStr?]

theorem accepts_nullable_iff {schema : Schema} :
    schema.nullable.accepts D j = true ↔ schema.accepts D j = true ∨ j = .null := by
  cases j <;> simp [accepts, acceptsAny, JsonType.has]

theorem acceptsProperties_iff :
    acceptsProperties D props fs = true ↔
      ∀ p ∈ props, ∀ v, fs.lookup p.1 = some v → p.2.accepts D v = true := by
  induction props with
  | nil => simp [acceptsProperties]
  | cons p props ih =>
    simp only [acceptsProperties, Bool.and_eq_true, ih, List.forall_mem_cons,
      Option.all_eq_true]

/-- What the schema of a record says of an object. -/
theorem accepts_record_iff :
    (record props keys).accepts D (.obj fs) = true ↔
      (∀ p ∈ props, ∀ v, fs.lookup p.1 = some v → p.2.accepts D v = true) ∧
        ∀ key ∈ keys, (fs.lookup key).isSome := by
  simp [accepts, acceptsAll, JsonType.has, Json.fields, acceptsProperties_iff]

/-- Fields that have all of some properties, each accepted by its schema. -/
inductive HasProperties (D : Dialect) (fs : List (String × Json)) : List (String × Schema) → Prop
  | nil : HasProperties D fs []
  | cons {key : String} {schema : Schema} {v : Json} {props : List (String × Schema)}
      (hv : fs.lookup key = some v) (h : schema.accepts D v = true)
      (hprops : HasProperties D fs props) : HasProperties D fs ((key, schema) :: props)

theorem HasProperties.exists_lookup (h : HasProperties D fs props) :
    ∀ p ∈ props, ∃ v, fs.lookup p.1 = some v ∧ p.2.accepts D v = true := by
  induction h with
  | nil => exact fun p hp => absurd hp List.not_mem_nil
  | cons hv h _ ih => exact List.forall_mem_cons.mpr ⟨⟨_, hv, h⟩, ih⟩

/-- A record may ask for what is there. -/
theorem HasProperties.accepts_record (h : HasProperties D fs props)
    (hkeys : ∀ key ∈ keys, key ∈ props.map Prod.fst) :
    (record props keys).accepts D (.obj fs) = true := by
  refine accepts_record_iff.mpr ⟨fun p hp v hv => ?_, fun key hkey => ?_⟩
  · obtain ⟨v', hv', hp⟩ := h.exists_lookup p hp
    obtain rfl := Option.some.inj (hv.symm.trans hv')
    exact hp
  · obtain ⟨p, hp, rfl⟩ := List.mem_map.mp (hkeys key hkey)
    obtain ⟨v, hv, -⟩ := h.exists_lookup p hp
    exact Option.isSome_of_mem hv

/-- A record is an object. -/
theorem exists_of_accepts_record (h : (record props keys).accepts D j = true) :
    ∃ fs, j = .obj fs := by
  cases j with
  | obj fs => exact ⟨fs, rfl⟩
  | null | bool | int | float | str | arr => simp [accepts, acceptsAll, JsonType.has] at h

end Schema

/-- A codec that is described by a schema. -/
class Described (α : Type) [JsonCodec α] where
  schema : Schema
  /-- What is dumped is accepted. -/
  accepts_dump : ∀ {D : Dialect}, D.AdmitsIso → ∀ a : α, schema.accepts D (dump a) = true
  /-- What is accepted is read. -/
  exists_validate : ∀ {j : Json}, j.DistinctKeys → schema.accepts .strict j = true →
    ∃ a : α, validate j = some a

namespace Described

variable {α : Type} [JsonCodec α] [Described α] {D : Dialect}

theorem accepts_dumpOption (hD : D.AdmitsIso) (o : Option α) :
    (schema α).nullable.accepts D (dumpOption o) = true := by
  cases o with
  | none => exact Schema.accepts_nullable_iff.mpr (.inr rfl)
  | some a => exact Schema.accepts_nullable_iff.mpr (.inl (accepts_dump hD a))

theorem exists_validateOption {j : Json} (hj : j.DistinctKeys)
    (h : (schema α).nullable.accepts .strict j = true) :
    ∃ o : Option α, validateOption j = some o := by
  obtain h | rfl := Schema.accepts_nullable_iff.mp h
  · obtain ⟨a, ha⟩ := exists_validate (α := α) hj h
    cases j with
    | null => exact ⟨none, rfl⟩
    | bool | int | float | str | arr | obj => exact ⟨some a, by simp [validateOption, ha]⟩
  · exact ⟨none, rfl⟩

end Described

/-- A reader that succeeds on the fields that the schema of a record accepts. -/
structure ReadsAccepted {α : Type} (props : List (String × Schema)) (keys : List String)
    (read : List (String × Json) → Option α) : Prop where
  total : ∀ {fs : List (String × Json)}, (Json.obj fs).DistinctKeys →
    (Schema.record props keys).accepts .strict (.obj fs) = true → ∃ a, read fs = some a

namespace ReadsAccepted

variable {α β : Type} {props : List (String × Schema)} {keys : List String}

theorem pure (a : α) : ReadsAccepted props keys fun _ => some a := ⟨fun _ _ => ⟨a, rfl⟩⟩

/-- A reader that goes on with what another has read. -/
theorem bind {read : List (String × Json) → Option α}
    {next : α → List (String × Json) → Option β} (hread : ReadsAccepted props keys read)
    (hnext : ∀ a, ReadsAccepted props keys (next a)) :
    ReadsAccepted props keys fun fs => read fs >>= fun a => next a fs := by
  refine ⟨fun hfs h => ?_⟩
  obtain ⟨a, ha⟩ := hread.total hfs h
  obtain ⟨b, hb⟩ := (hnext a).total hfs h
  exact ⟨b, Option.bind_eq_some_iff.mpr ⟨a, ha, hb⟩⟩

/-- What is looked up is there. -/
theorem mem_of_lookup {γ : Type} {l : List (String × γ)} {key : String} {c : γ}
    (h : l.lookup key = some c) : (key, c) ∈ l := by
  obtain ⟨l₁, l₂, rfl, -⟩ := List.lookup_eq_some_iff.mp h
  exact List.mem_append_right _ List.mem_cons_self

variable [JsonCodec α] [Described α] {key : String}

/-- A field that must be there, and of which the schema may ask for more. -/
theorem required_of_imp {s : Schema} (hprop : props.lookup key = some s) (hkey : key ∈ keys)
    (himp : ∀ j, s.accepts .strict j = true → (Described.schema α).accepts .strict j = true) :
    ReadsAccepted props keys fun fs => (JsonCodec.required fs key : Option α) := by
  refine ⟨fun {fs} hfs h => ?_⟩
  obtain ⟨hprops, hkeys⟩ := Schema.accepts_record_iff.mp h
  obtain ⟨v, hv⟩ := Option.isSome_iff_exists.mp (hkeys key hkey)
  obtain ⟨a, ha⟩ := Described.exists_validate (hfs.2.lookup hv)
    (himp v (hprops _ (mem_of_lookup hprop) v hv))
  exact ⟨a, Option.bind_eq_some_iff.mpr ⟨v, hv, ha⟩⟩

theorem required (hprop : props.lookup key = some (Described.schema α) := by rfl)
    (hkey : key ∈ keys := by decide) :
    ReadsAccepted props keys fun fs => (JsonCodec.required fs key : Option α) :=
  required_of_imp hprop hkey fun _ h => h

theorem nullable
    (hprop : props.lookup key = some (Described.schema α).nullable := by rfl) :
    ReadsAccepted props keys fun fs => (JsonCodec.nullable fs key : Option (Option α)) := by
  refine ⟨fun {fs} hfs h => ?_⟩
  simp only [JsonCodec.nullable]
  cases hv : fs.lookup key with
  | none => exact ⟨none, rfl⟩
  | some v =>
    have hprops := (Schema.accepts_record_iff.mp h).1
    exact Described.exists_validateOption (hfs.2.lookup hv) (hprops _ (mem_of_lookup hprop) v hv)

theorem defaulted (default : α)
    (hprop : props.lookup key = some (Described.schema α) := by rfl) :
    ReadsAccepted props keys fun fs => JsonCodec.defaulted fs key default := by
  refine ⟨fun {fs} hfs h => ?_⟩
  simp only [JsonCodec.defaulted]
  cases hv : fs.lookup key with
  | none => exact ⟨default, rfl⟩
  | some v =>
    have hprops := (Schema.accepts_record_iff.mp h).1
    exact Described.exists_validate (hfs.2.lookup hv) (hprops _ (mem_of_lookup hprop) v hv)

end ReadsAccepted

/-- The codec of a record is described by the schema of its fields. -/
@[reducible]
def Described.ofFields {α : Type} {write : α → List (String × Json)}
    {read : List (String × Json) → Option α} {h : ∀ a, read (write a) = some a}
    (props : List (String × Schema)) (keys : List String)
    (hwrite : ∀ {D : Dialect}, D.AdmitsIso → ∀ a,
      (Schema.record props keys).accepts D (.obj (write a)) = true)
    (hread : ReadsAccepted props keys read) : @Described α (JsonCodec.ofFields write read h) :=
  @Described.mk α (JsonCodec.ofFields write read h) (Schema.record props keys) hwrite
    fun {j} hj haccepts => by
      obtain ⟨fs, rfl⟩ := Schema.exists_of_accepts_record haccepts
      exact hread.total hj haccepts

/-- The codec of an enumeration is described by the texts of its members. -/
@[reducible]
def Described.ofEnum {α : Type} [JsonCodec α] (values : List String)
    (hwrite : ∀ a : α, ∃ s ∈ values, dump a = .str s)
    (hread : ∀ s ∈ values, (validate (.str s) : Option α).isSome) : Described α where
  schema := .oneOf values
  accepts_dump _ a := Schema.accepts_oneOf_iff.mpr (hwrite a)
  exists_validate _ h := by
    obtain ⟨s, hs, rfl⟩ := Schema.accepts_oneOf_iff.mp h
    exact Option.isSome_iff_exists.mp (hread s hs)

/-! ### The basic types -/

instance : Described String where
  schema := .string
  accepts_dump _ _ := rfl
  exists_validate _ h := by
    obtain ⟨s, rfl⟩ := Schema.accepts_string_iff.mp h
    exact ⟨s, rfl⟩

instance : Described ℤ where
  schema := .integer
  accepts_dump _ _ := rfl
  exists_validate {j} _ h := by
    cases j with
    | int n => exact ⟨n, rfl⟩
    | null | bool | float | str | arr | obj =>
      simp [Schema.accepts, JsonType.has, Dialect.strict] at h

instance : Described ℚ where
  schema := .number
  accepts_dump _ _ := rfl
  exists_validate {j} _ h := by
    cases j with
    | int n => exact ⟨n, rfl⟩
    | float q => exact ⟨q, rfl⟩
    | null | bool | str | arr | obj => simp [Schema.accepts, JsonType.has] at h

instance : Described IsoDatetime where
  schema := .dateTime
  accepts_dump hD d := Schema.accepts_dateTime_iff.mpr ⟨_, rfl, hD d.1⟩
  exists_validate _ h := by
    obtain ⟨s, rfl, hs⟩ := Schema.accepts_dateTime_iff.mp h
    exact Option.isSome_iff_exists.mp hs

/-- The texts of an array that a schema takes for texts. -/
theorem exists_mapM_asStr? {items : List Json} (h : ∀ j ∈ items, ∃ s, j = .str s) :
    ∃ texts, items.mapM Json.asStr? = some texts := by
  induction items with
  | nil => exact ⟨[], rfl⟩
  | cons j items ih =>
    obtain ⟨⟨s, rfl⟩, hrest⟩ := List.forall_mem_cons.mp h
    obtain ⟨texts, htexts⟩ := ih hrest
    exact ⟨s :: texts, by rw [List.mapM_cons, htexts]; rfl⟩

instance : Described (List String) where
  schema := .arrayOf .string
  accepts_dump _ items := by
    refine Schema.accepts_arrayOf_iff.mpr ⟨_, rfl, fun v hv => ?_⟩
    obtain ⟨s, -, rfl⟩ := List.mem_map.mp hv
    rfl
  exists_validate _ h := by
    obtain ⟨items, rfl, hitems⟩ := Schema.accepts_arrayOf_iff.mp h
    exact exists_mapM_asStr? fun v hv => Schema.accepts_string_iff.mp (hitems v hv)

/-- The texts of an object that a schema takes for texts. -/
theorem exists_strItems {fs : List (String × Json)} (h : ∀ f ∈ fs, ∃ s, f.2 = .str s) :
    ∃ items, strItems fs = some items ∧ items.map Prod.fst = fs.map Prod.fst := by
  induction fs with
  | nil => exact ⟨[], rfl, rfl⟩
  | cons f fs ih =>
    obtain ⟨⟨s, hs⟩, hrest⟩ := List.forall_mem_cons.mp h
    obtain ⟨items, hitems, hkeys⟩ := ih hrest
    refine ⟨(f.1, s) :: items, ?_, congrArg (f.1 :: ·) hkeys⟩
    rw [strItems] at hitems ⊢
    rw [List.mapM_cons, hitems, hs]
    rfl

instance : Described StrDict where
  schema := .dictOf .string
  accepts_dump _ d := by
    refine Schema.accepts_dictOf_iff.mpr ⟨_, rfl, fun f hf => ?_⟩
    obtain ⟨p, -, rfl⟩ := List.mem_map.mp hf
    rfl
  exists_validate hj h := by
    obtain ⟨fs, rfl, hfs⟩ := Schema.accepts_dictOf_iff.mp h
    obtain ⟨items, hitems, hkeys⟩ := exists_strItems fun f hf =>
      Schema.accepts_string_iff.mp (hfs f hf)
    have hnodup : (items.map Prod.fst).Nodup := hkeys ▸ hj.1
    refine ⟨⟨items, hnodup⟩, ?_⟩
    show (strItems fs).bind _ = _
    rw [hitems, Option.bind_some, dif_pos hnodup]
