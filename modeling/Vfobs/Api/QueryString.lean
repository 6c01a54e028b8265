import Vfobs.Api.Query
import Vfobs.Foundations.Dict

/-!
# From a query string to a query

`buildEventQuery` turns the parameters of a request into an `EventQuery`, or refuses them with the
errors of a `422`. The parameters are a list of pairs in which a key may be repeated; the model
only sees their dictionary, and it sees what it does not know as an error. How pydantic reads an
integer is the parameter `readInt`, whose errors are the types of pydantic's.

* `exists_buildEventQuery_eq_ok_iff` says what is refused: `Refused` looks at the last value of
  each key only.
* `buildEventQuery_honours_iff`: a query honours every pair of an accepted query string exactly
  when each pair reads the same as the last one of its key.
-/

namespace Vfobs

variable (readInt : String → Except String ℤ)

/-- One of `e.errors()`. -/
structure QueryError where
  type : String
  loc : List String
  input : String
  deriving DecidableEq, Repr

/-- The fields of `EventQuery`. -/
inductive QueryField
  | workgraphId | taskId | agentId | type | typeNamespace | orgId | fromId | limit
  deriving DecidableEq, Repr

namespace QueryField

/-- The keys that a field is read from: its alias, and, as `populate_by_name` has it, its name. -/
def keys : QueryField → List String
  | workgraphId => ["workgraph_id"]
  | taskId => ["task_id"]
  | agentId => ["agent_id"]
  | type => ["type", "type_"]
  | typeNamespace => ["type_namespace"]
  | orgId => ["org_id"]
  | fromId => ["from_id"]
  | limit => ["limit"]

/-- The fields, in the order of their declaration. -/
def all : List QueryField :=
  [workgraphId, taskId, agentId, type, typeNamespace, orgId, fromId, limit]

/-- The entry that a field is read from, that of its first key among those given. -/
def entry? (f : QueryField) (raw : List (String × String)) : Option (String × String) :=
  f.keys.findSome? fun key => (raw.lookup key).map (key, ·)

/-- The value of a field of type `str`. -/
def text? (f : QueryField) (raw : List (String × String)) : Option String :=
  (f.entry? raw).map Prod.snd

/-- The values of a field of type `int` with bounds `ge` and `le`. -/
@[ext]
structure Bounded (ge : ℤ) (le : Option ℤ) where
  val : ℤ
  val_le : ∀ u ∈ le, val ≤ u
  ge_le : ge ≤ val

/-- Read an `int` with bounds `ge` and `le` from the entry `(key, input)`. -/
def readBounded (ge : ℤ) (le : Option ℤ) (key input : String) :
    Except QueryError (Bounded ge le) :=
  match readInt input with
  | .error reason => .error ⟨reason, [key], input⟩
  | .ok n =>
    if hle : ∀ u ∈ le, n ≤ u then
      if hge : ge ≤ n then .ok ⟨n, hle, hge⟩
      else .error ⟨"greater_than_equal", [key], input⟩
    else .error ⟨"less_than_equal", [key], input⟩

/-- The value of a field of type `int` with bounds `ge` and `le`. -/
def int? (f : QueryField) (ge : ℤ) (le : Option ℤ) (raw : List (String × String)) :
    Except QueryError (Option (Bounded ge le)) :=
  match f.entry? raw with
  | none => .ok none
  | some (key, input) => (readBounded readInt ge le key input).map some

/-- Under `extra='forbid'`, every entry that no field is read from is an error. -/
def extraErrors (raw : List (String × String)) : List QueryError :=
  (raw.filter fun e => ∀ f ∈ all, f.entry? raw ≠ some e).map
    fun e => ⟨"extra_forbidden", [e.1], e.2⟩

end QueryField

open QueryField (Bounded)

/-- `EventQuery.model_validate`, on a dictionary of texts. -/
def EventQuery.ofRaw (raw : List (String × String)) : Except (List QueryError) EventQuery :=
  match QueryField.fromId.int? readInt 0 none raw,
    QueryField.limit.int? readInt 1 (some 1000) raw, QueryField.extraErrors raw with
  | .ok fromId, .ok limit, [] => .ok {
      workgraphId := QueryField.workgraphId.text? raw
      taskId := QueryField.taskId.text? raw
      agentId := QueryField.agentId.text? raw
      type := QueryField.type.text? raw
      typeNamespace := QueryField.typeNamespace.text? raw
      orgId := (QueryField.orgId.text? raw).getD defaultOrgId
      fromId := fromId.map Bounded.val
      limit := (limit.map Bounded.val).getD defaultLimit
      fromId_nonneg := by
        simp only [Option.mem_map]
        rintro _ ⟨n, -, rfl⟩
        exact n.ge_le
      limit_mem := by
        cases limit with
        | none => decide
        | some n => exact ⟨n.ge_le, n.val_le 1000 rfl⟩ }
  | fromId, limit, extra => .error (errorsOf fromId ++ errorsOf limit ++ extra)
where
  /-- The errors of a field. -/
  errorsOf {α : Type} : Except QueryError α → List QueryError
    | .ok _ => []
    | .error e => [e]

/-- `build_event_query`: `dict(request.query_params)`, validated. -/
def buildEventQuery (queryParams : List (String × String)) :
    Except (List QueryError) EventQuery :=
  EventQuery.ofRaw readInt (Dict.ofPairs queryParams)

namespace QueryField

/-- The field accepts a text for its value. -/
def Accepts : QueryField → String → Prop
  | fromId, input => ∃ n, readInt input = .ok n ∧ 0 ≤ n
  | limit, input => ∃ n, readInt input = .ok n ∧ 1 ≤ n ∧ n ≤ 1000
  | _, _ => True

/-- The field reads two texts as the same value. -/
def SameReading : QueryField → String → String → Prop
  | fromId, v, w | limit, v, w => ∃ n, readInt v = .ok n ∧ readInt w = .ok n
  | _, v, w => v = w

variable {readInt} {raw : List (String × String)} {f g : QueryField} {key input : String}

@[simp]
theorem mem_all (f : QueryField) : f ∈ all := by cases f <;> decide

/-- No key belongs to two fields. -/
theorem eq_of_mem_keys (hf : key ∈ f.keys) (hg : key ∈ g.keys) : f = g := by
  have owner : ∀ h : QueryField, key ∈ h.keys → all.find? (key ∈ ·.keys) = some h := by
    rintro ⟨⟩ hkey <;> simp only [keys, List.mem_cons, List.not_mem_nil, or_false] at hkey
    case type => rcases hkey with rfl | rfl <;> decide
    all_goals subst hkey; decide
  exact Option.some.inj ((owner f hf).symm.trans (owner g hg))

theorem of_entry?_eq_some (h : f.entry? raw = some (key, input)) :
    key ∈ f.keys ∧ raw.lookup key = some input := by
  obtain ⟨k, hk, hlookup⟩ := List.exists_of_findSome?_eq_some h
  obtain ⟨v, hv, heq⟩ := Option.map_eq_some_iff.mp hlookup
  obtain ⟨rfl, rfl⟩ := Prod.mk.inj heq
  exact ⟨hk, hv⟩

/-- A field is read from some entry as soon as one of its keys is given. -/
theorem exists_entry?_eq_some (hkey : key ∈ f.keys) (h : raw.lookup key = some input) :
    ∃ e, f.entry? raw = some e :=
  Option.isSome_iff_exists.mp (List.findSome?_isSome_iff.mpr ⟨key, hkey, by simp [h]⟩)

theorem readBounded_eq_ok_iff {ge : ℤ} {le : Option ℤ} {b : Bounded ge le} :
    readBounded readInt ge le key input = .ok b ↔ readInt input = .ok b.val := by
  rw [readBounded]
  split
  · next h => simp [h]
  · next n h =>
    rw [h, Except.ok.injEq]
    split_ifs with hle hge
    · rw [Except.ok.injEq, Bounded.ext_iff]
    · exact iff_of_false nofun fun hn => hge (hn ▸ b.ge_le)
    · exact iff_of_false nofun fun hn => hle (hn ▸ b.val_le)

theorem Bounded.exists_map_val {ge : ℤ} {le n? : Option ℤ}
    (h : ∀ n ∈ n?, ge ≤ n ∧ ∀ u ∈ le, n ≤ u) :
    ∃ o : Option (Bounded ge le), o.map Bounded.val = n? := by
  cases n? with
  | none => exact ⟨none, rfl⟩
  | some n =>
    obtain ⟨hge, hle⟩ := h n rfl
    exact ⟨some ⟨n, hle, hge⟩, rfl⟩

theorem names_of_readBounded_eq_error {ge : ℤ} {le : Option ℤ} {e : QueryError}
    (h : readBounded readInt ge le key input = .error e) : e.loc = [key] ∧ e.input = input := by
  rw [readBounded] at h
  split at h
  · cases h
    exact ⟨rfl, rfl⟩
  · split_ifs at h <;> cases h <;> exact ⟨rfl, rfl⟩

theorem names_of_int?_eq_error {ge : ℤ} {le : Option ℤ} {e : QueryError}
    (h : f.int? readInt ge le raw = .error e) :
    ∃ key, e.loc = [key] ∧ (key, e.input) ∈ raw := by
  rw [int?] at h
  split at h
  · cases h
  · next key input hentry =>
    cases hread : readBounded readInt ge le key input with
    | ok b => simp [hread, Except.map] at h
    | error e' =>
      obtain ⟨hloc, hinput⟩ := names_of_readBounded_eq_error hread
      obtain rfl : e' = e := by simpa [hread, Except.map] using h
      exact ⟨key, hloc, hinput ▸ Dict.mem_of_lookup_eq_some (of_entry?_eq_some hentry).2⟩

theorem extraErrors_eq_nil_iff :
    extraErrors raw = [] ↔ ∀ e ∈ raw, ∃ f : QueryField, f.entry? raw = some e := by
  simp [extraErrors, List.filter_eq_nil_iff]

/-- A bounded `int` that is given is read when its bounds hold. -/
theorem int?_eq_ok_iff {ge : ℤ} {le : Option ℤ} {o : Option (Bounded ge le)}
    (h : f.entry? raw = some (key, input)) :
    f.int? readInt ge le raw = .ok o ↔ ∃ b, o = some b ∧ readInt input = .ok b.val := by
  simp only [int?, h, ← @readBounded_eq_ok_iff readInt key input]
  cases readBounded readInt ge le key input with
  | error e => simp [Except.map]
  | ok b => simp [Except.map, eq_comm]

end QueryField

namespace EventQuery

/-- A field of a query has the value that a text gives it. -/
def Holds (q : EventQuery) : QueryField → String → Prop
  | .workgraphId, input => q.workgraphId = some input
  | .taskId, input => q.taskId = some input
  | .agentId, input => q.agentId = some input
  | .type, input => q.type = some input
  | .typeNamespace, input => q.typeNamespace = some input
  | .orgId, input => q.orgId = input
  | .fromId, input => ∃ n, readInt input = .ok n ∧ q.fromId = some n
  | .limit, input => readInt input = .ok q.limit

/-- A query honours a pair: its key is that of a field, which has the value given. -/
def Honours (q : EventQuery) (p : String × String) : Prop :=
  ∃ f : QueryField, p.1 ∈ f.keys ∧ q.Holds readInt f p.2

/-- A query has the values that a dictionary gives, which gives nothing else. -/
structure ReadFrom (raw : List (String × String)) (q : EventQuery) : Prop where
  known : ∀ e ∈ raw, ∃ f : QueryField, f.entry? raw = some e
  workgraphId : q.workgraphId = QueryField.workgraphId.text? raw
  taskId : q.taskId = QueryField.taskId.text? raw
  agentId : q.agentId = QueryField.agentId.text? raw
  type : q.type = QueryField.type.text? raw
  typeNamespace : q.typeNamespace = QueryField.typeNamespace.text? raw
  orgId : q.orgId = (QueryField.orgId.text? raw).getD defaultOrgId
  fromId : ∃ o, QueryField.fromId.int? readInt 0 none raw = .ok o ∧ q.fromId = o.map Bounded.val
  limit : ∃ o, QueryField.limit.int? readInt 1 (some 1000) raw = .ok o ∧
    q.limit = (o.map Bounded.val).getD defaultLimit

variable {readInt} {raw : List (String × String)} {q : EventQuery} {f : QueryField}
  {key v w : String}

theorem errorsOf_eq_nil_iff {α : Type} {x : Except QueryError α} :
    ofRaw.errorsOf x = [] ↔ ∃ a, x = .ok a := by
  cases x <;> simp [ofRaw.errorsOf]

theorem mem_errorsOf_iff {α : Type} {x : Except QueryError α} {e : QueryError} :
    e ∈ ofRaw.errorsOf x ↔ x = .error e := by
  cases x <;> simp [ofRaw.errorsOf, eq_comm]

/-- The fields are validated independently of each other. -/
theorem exists_ofRaw_eq_ok_iff : (∃ q, ofRaw readInt raw = .ok q) ↔
    (∃ o, QueryField.fromId.int? readInt 0 none raw = .ok o) ∧
      (∃ o, QueryField.limit.int? readInt 1 (some 1000) raw = .ok o) ∧
      QueryField.extraErrors raw = [] := by
  rw [ofRaw]
  split
  · next hfrom hlimit hextra => simp [hfrom, hlimit, hextra]
  · next hno =>
    refine iff_of_false (by simp) ?_
    rintro ⟨⟨o, ho⟩, ⟨o', ho'⟩, hextra⟩
    exact hno o o' ho ho' hextra

theorem readFrom_of_ofRaw (h : ofRaw readInt raw = .ok q) : q.ReadFrom readInt raw := by
  rw [ofRaw] at h
  split at h
  · next o o' hfrom hlimit hextra =>
    cases h
    exact ⟨QueryField.extraErrors_eq_nil_iff.mp hextra, rfl, rfl, rfl, rfl, rfl, rfl,
      ⟨o, hfrom, rfl⟩, ⟨o', hlimit, rfl⟩⟩
  · cases h

/-- A query is what a dictionary is validated as exactly when it was read from it. -/
theorem ofRaw_eq_ok_iff : ofRaw readInt raw = .ok q ↔ q.ReadFrom readInt raw := by
  refine ⟨readFrom_of_ofRaw, fun h => ?_⟩
  obtain ⟨o, ho, hfrom⟩ := h.fromId
  obtain ⟨o', ho', hlimit⟩ := h.limit
  rw [ofRaw, ho, ho', QueryField.extraErrors_eq_nil_iff.mpr h.known]
  obtain ⟨-, hworkgraph, htask, hagent, htype, hnamespace, horg, -, -⟩ := h
  cases q
  simp_all

/-- A refusal has an error, and each error names an entry of the dictionary. -/
theorem names_of_ofRaw_eq_error {errors : List QueryError}
    (h : ofRaw readInt raw = .error errors) :
    errors ≠ [] ∧ ∀ e ∈ errors, ∃ key, e.loc = [key] ∧ (key, e.input) ∈ raw := by
  rw [ofRaw] at h
  split at h
  · cases h
  · next hno =>
    cases h
    constructor
    · intro hnil
      rw [List.append_eq_nil_iff, List.append_eq_nil_iff] at hnil
      obtain ⟨o, ho⟩ := errorsOf_eq_nil_iff.mp hnil.1.1
      obtain ⟨o', ho'⟩ := errorsOf_eq_nil_iff.mp hnil.1.2
      exact hno o o' ho ho' hnil.2
    · simp only [List.mem_append, mem_errorsOf_iff]
      rintro e ((he | he) | he)
      · exact QueryField.names_of_int?_eq_error he
      · exact QueryField.names_of_int?_eq_error he
      · obtain ⟨p, hp, rfl⟩ := List.mem_map.mp he
        exact ⟨p.1, rfl, List.mem_of_mem_filter hp⟩

/-- The integers of a query are those of the texts they were read from. -/
theorem ReadFrom.readInt_fromId (h : q.ReadFrom readInt raw)
    (hentry : QueryField.fromId.entry? raw = some (key, w)) :
    ∃ n, readInt w = .ok n ∧ 0 ≤ n ∧ q.fromId = some n := by
  obtain ⟨o, ho, hq⟩ := h.fromId
  obtain ⟨b, rfl, hb⟩ := (QueryField.int?_eq_ok_iff hentry).mp ho
  exact ⟨b.val, hb, b.ge_le, hq⟩

theorem ReadFrom.readInt_limit (h : q.ReadFrom readInt raw)
    (hentry : QueryField.limit.entry? raw = some (key, w)) : readInt w = .ok q.limit := by
  obtain ⟨o, ho, hq⟩ := h.limit
  obtain ⟨b, rfl, hb⟩ := (QueryField.int?_eq_ok_iff hentry).mp ho
  rw [hb, hq, Option.map_some, Option.getD_some]

/-- A query honours a text as far as it reads the same as the one its field was read from. -/
theorem ReadFrom.holds_iff (h : q.ReadFrom readInt raw) (hentry : f.entry? raw = some (key, w)) :
    q.Holds readInt f v ↔ f.SameReading readInt v w := by
  have htext : f.text? raw = some w := by rw [QueryField.text?, hentry]; rfl
  have hvalue (value : Option String) (hread : value = f.text? raw) :
      value = some v ↔ v = w := by
    rw [hread, htext, Option.some.injEq, eq_comm]
  cases f with
  | workgraphId => exact hvalue _ h.workgraphId
  | taskId => exact hvalue _ h.taskId
  | agentId => exact hvalue _ h.agentId
  | type => exact hvalue _ h.type
  | typeNamespace => exact hvalue _ h.typeNamespace
  | orgId => simp only [Holds, QueryField.SameReading, h.orgId, htext, Option.getD_some, eq_comm]
  | fromId =>
    obtain ⟨n, hn, -, hq⟩ := h.readInt_fromId hentry
    simp only [Holds, QueryField.SameReading, hq, hn, Option.some.injEq, Except.ok.injEq]
  | limit => simp [Holds, QueryField.SameReading, h.readInt_limit hentry]

end EventQuery

/-! ### What is refused -/

/-- What the errors of a query string come from: a key of no field, two keys of one field, or a
last value of a key that its field does not accept. -/
inductive Refused (queryParams : List (String × String)) : Prop
  | unknown (p : String × String) (hp : p ∈ queryParams) (hkey : ∀ f : QueryField, p.1 ∉ f.keys)
  | twoKeys (f : QueryField) (p p' : String × String) (hp : p ∈ queryParams)
      (hp' : p' ∈ queryParams) (hkey : p.1 ∈ f.keys) (hkey' : p'.1 ∈ f.keys) (hne : p.1 ≠ p'.1)
  | notAccepted (f : QueryField) (key input : String) (hkey : key ∈ f.keys)
      (hlast : Dict.last? queryParams key = some input) (hno : ¬ f.Accepts readInt input)

variable {readInt} {queryParams : List (String × String)}

section

variable {f : QueryField} {key input : String}

theorem exists_int?_eq_ok {ge : ℤ} {le : Option ℤ} {raw : List (String × String)}
    (h : ∀ key input, f.entry? raw = some (key, input) →
      ∃ n, readInt input = .ok n ∧ ge ≤ n ∧ ∀ u ∈ le, n ≤ u) :
    ∃ o, f.int? readInt ge le raw = .ok o := by
  cases hentry : f.entry? raw with
  | none => exact ⟨none, by rw [QueryField.int?, hentry]⟩
  | some e =>
    obtain ⟨n, hn, hge, hle⟩ := h e.1 e.2 hentry
    exact ⟨some ⟨n, hle, hge⟩, (QueryField.int?_eq_ok_iff hentry).mpr ⟨_, rfl, hn⟩⟩

/-- The entry of a field in the dictionary of a query string that uses one key of it. -/
theorem entry?_ofPairs (hunique : ∀ p ∈ queryParams, p.1 ∈ f.keys → p.1 = key)
    (hkey : key ∈ f.keys) (hlast : Dict.last? queryParams key = some input) :
    f.entry? (Dict.ofPairs queryParams) = some (key, input) := by
  obtain ⟨⟨key', input'⟩, hentry⟩ := QueryField.exists_entry?_eq_some hkey
    ((Dict.lookup_ofPairs queryParams key).trans hlast)
  obtain ⟨hkey', hlookup'⟩ := QueryField.of_entry?_eq_some hentry
  rw [Dict.lookup_ofPairs] at hlookup'
  obtain rfl := hunique _ (Dict.mem_of_last?_eq_some hlookup') hkey'
  rw [hentry, Option.some.inj (hlookup'.symm.trans hlast)]

/-- In an accepted query string the last value of a key is the one its field was read from. -/
theorem EventQuery.ReadFrom.entry?_eq {q : EventQuery}
    (h : q.ReadFrom readInt (Dict.ofPairs queryParams)) (hkey : key ∈ f.keys)
    (hlast : Dict.last? queryParams key = some input) :
    f.entry? (Dict.ofPairs queryParams) = some (key, input) := by
  obtain ⟨g, hg⟩ := h.known _ (Dict.mem_ofPairs_iff.mpr hlast)
  exact QueryField.eq_of_mem_keys (QueryField.of_entry?_eq_some hg).1 hkey ▸ hg

end

theorem not_refused_of_readFrom {q : EventQuery}
    (h : q.ReadFrom readInt (Dict.ofPairs queryParams)) : ¬ Refused readInt queryParams := by
  rintro (⟨⟨key, v⟩, hp, hkey⟩ | ⟨f, ⟨key, v⟩, ⟨key', v'⟩, hp, hp', hkey, hkey', hne⟩ |
    ⟨f, key, input, hkey, hlast, hno⟩)
  · obtain ⟨w, hw⟩ := Dict.exists_last?_eq_some hp
    obtain ⟨f, hf⟩ := h.known _ (Dict.mem_ofPairs_iff.mpr hw)
    exact hkey f (QueryField.of_entry?_eq_some hf).1
  · obtain ⟨w, hw⟩ := Dict.exists_last?_eq_some hp
    obtain ⟨w', hw'⟩ := Dict.exists_last?_eq_some hp'
    have heq := (h.entry?_eq hkey hw).symm.trans (h.entry?_eq hkey' hw')
    exact hne (Prod.mk.inj (Option.some.inj heq)).1
  · have hentry := h.entry?_eq hkey hlast
    cases f with
    | fromId =>
      obtain ⟨n, hn, hge, -⟩ := h.readInt_fromId hentry
      exact hno ⟨n, hn, hge⟩
    | limit => exact hno ⟨_, h.readInt_limit hentry, q.limit_mem⟩
    | _ => exact hno trivial

/-- **What is accepted.** Only the last value of a key is looked at. -/
theorem exists_buildEventQuery_eq_ok_iff :
    (∃ q, buildEventQuery readInt queryParams = .ok q) ↔ ¬ Refused readInt queryParams := by
  refine ⟨fun ⟨q, hq⟩ => not_refused_of_readFrom (EventQuery.readFrom_of_ofRaw hq), fun h => ?_⟩
  have haccepts (f : QueryField) (key input : String)
      (hentry : f.entry? (Dict.ofPairs queryParams) = some (key, input)) :
      f.Accepts readInt input := by
    obtain ⟨hkey, hlookup⟩ := QueryField.of_entry?_eq_some hentry
    rw [Dict.lookup_ofPairs] at hlookup
    exact not_not.mp fun hno => h (.notAccepted f key input hkey hlookup hno)
  refine EventQuery.exists_ofRaw_eq_ok_iff.mpr ⟨exists_int?_eq_ok fun key input hentry => ?_,
    exists_int?_eq_ok fun key input hentry => ?_,
    QueryField.extraErrors_eq_nil_iff.mpr fun ⟨key, input⟩ he => ?_⟩
  · obtain ⟨n, hn, hge⟩ := haccepts .fromId key input hentry
    exact ⟨n, hn, hge, nofun⟩
  · obtain ⟨n, hn, hge, hle⟩ := haccepts .limit key input hentry
    exact ⟨n, hn, hge, fun u hu => Option.mem_some_iff.mp hu ▸ hle⟩
  · rw [Dict.mem_ofPairs_iff] at he
    have hp := Dict.mem_of_last?_eq_some he
    obtain ⟨f, hkey⟩ : ∃ f : QueryField, key ∈ f.keys := by
      by_contra hno
      exact h (.unknown _ hp (not_exists.mp hno))
    exact ⟨f, entry?_ofPairs (fun p hp' hkey' => by_contra fun hne =>
      h (.twoKeys f p (key, input) hp' hp hkey' hkey hne)) hkey he⟩

/-- The errors of a refused query string name pairs of it. -/
theorem names_of_buildEventQuery_eq_error {errors : List QueryError}
    (h : buildEventQuery readInt queryParams = .error errors) :
    errors ≠ [] ∧ ∀ e ∈ errors, ∃ key, e.loc = [key] ∧ (key, e.input) ∈ queryParams := by
  obtain ⟨hne, hnames⟩ := EventQuery.names_of_ofRaw_eq_error h
  refine ⟨hne, fun e he => ?_⟩
  obtain ⟨key, hloc, hmem⟩ := hnames e he
  exact ⟨key, hloc, Dict.mem_of_last?_eq_some (Dict.mem_ofPairs_iff.mp hmem)⟩

/-- **No pair is dropped, exactly when** the query string is refused or every pair reads the same
as the last one of its key. -/
theorem buildEventQuery_honours_iff (queryParams : List (String × String)) :
    (∀ q, buildEventQuery readInt queryParams = .ok q →
      ∀ p ∈ queryParams, q.Honours readInt p) ↔
    Refused readInt queryParams ∨ ∀ p ∈ queryParams, ∀ f : QueryField, p.1 ∈ f.keys →
      ∀ last, Dict.last? queryParams p.1 = some last → f.SameReading readInt p.2 last := by
  by_cases hrefused : Refused readInt queryParams
  · refine iff_of_true (fun q hq => ?_) (.inl hrefused)
    exact absurd hrefused (exists_buildEventQuery_eq_ok_iff.mp ⟨q, hq⟩)
  · obtain ⟨q, hq⟩ := exists_buildEventQuery_eq_ok_iff.mpr hrefused
    have hread := EventQuery.readFrom_of_ofRaw hq
    simp only [hrefused, false_or, hq, Except.ok.injEq, forall_eq']
    constructor
    · intro h p hp f hkey last hlast
      obtain ⟨g, hkey', hg⟩ := h p hp
      obtain rfl := QueryField.eq_of_mem_keys hkey hkey'
      exact (hread.holds_iff (hread.entry?_eq hkey hlast)).mp hg
    · intro h p hp
      obtain ⟨last, hlast⟩ := Dict.exists_last?_eq_some (v := p.2) hp
      obtain ⟨f, hf⟩ := hread.known _ (Dict.mem_ofPairs_iff.mpr hlast)
      have hkey := (QueryField.of_entry?_eq_some hf).1
      exact ⟨f, hkey, (hread.holds_iff hf).mpr (h p hp f hkey last hlast)⟩

/-- An out-of-range `limit` passes when another one follows it. -/
theorem first_limit_dropped : ∃ (readInt : String → Except String ℤ) (q : EventQuery),
    readInt "5000" = .ok 5000 ∧ readInt "10" = .ok 10 ∧
      buildEventQuery readInt [("limit", "5000"), ("limit", "10")] = .ok q ∧
      ¬ q.Honours readInt ("limit", "5000") := by
  let readInt : String → Except String ℤ := fun s =>
    if s = "5000" then .ok 5000 else if s = "10" then .ok 10 else .error "int_parsing"
  obtain ⟨q, hq, hlimit⟩ : ∃ q, buildEventQuery readInt [("limit", "5000"), ("limit", "10")] =
      .ok q ∧ q.limit = 10 := ⟨_, rfl, rfl⟩
  refine ⟨readInt, q, rfl, rfl, hq, ?_⟩
  rintro ⟨f, hkey, hf⟩
  obtain rfl := QueryField.eq_of_mem_keys hkey (g := .limit) (List.mem_singleton_self _)
  have heq : (5000 : ℤ) = q.limit := Except.ok.inj hf
  omega

/-! ### A query string without repeated keys -/

/-- The key by which a client gives a field. -/
def QueryField.key : QueryField → String
  | workgraphId => "workgraph_id"
  | taskId => "task_id"
  | agentId => "agent_id"
  | type => "type"
  | typeNamespace => "type_namespace"
  | orgId => "org_id"
  | fromId => "from_id"
  | limit => "limit"

namespace QueryParams

variable (writeInt : ℤ → String) (p : QueryParams)

/-- The text of a field, when a client gives it; `writeInt` writes an integer. -/
def textOf : QueryField → Option String
  | .workgraphId => p.workgraphId
  | .taskId => p.taskId
  | .agentId => p.agentId
  | .type => p.type
  | .typeNamespace => p.typeNamespace
  | .orgId => p.orgId
  | .fromId => p.fromId.map writeInt
  | .limit => p.limit.map writeInt

/-- The query string that gives each parameter once. -/
def toPairs : List (String × String) :=
  Dict.given (QueryField.all.map fun f => (f.key, p.textOf writeInt f))

theorem nodup_keys_textOf : ((QueryField.all.map fun f => (f.key, p.textOf writeInt f)).map
    Prod.fst).Nodup := by
  rw [List.map_map]
  exact (by decide : (QueryField.all.map QueryField.key).Nodup)

theorem lookup_toPairs (key : String) : (p.toPairs writeInt).lookup key =
    ((QueryField.all.map fun f => (f.key, p.textOf writeInt f)).lookup key).join :=
  Dict.lookup_given (nodup_keys_textOf writeInt p)

theorem entry?_toPairs (f : QueryField) :
    f.entry? (p.toPairs writeInt) = (p.textOf writeInt f).map (f.key, ·) := by
  have hown : (p.toPairs writeInt).lookup f.key = p.textOf writeInt f := by
    rw [lookup_toPairs]
    cases f <;> rfl
  have hname : (p.toPairs writeInt).lookup "type_" = none := by
    rw [lookup_toPairs]
    rfl
  have hkeys : f.keys = f.key :: if f = .type then ["type_"] else [] := by cases f <;> rfl
  rw [QueryField.entry?, hkeys, List.findSome?_cons, hown]
  cases p.textOf writeInt f with
  | some v => rfl
  | none => split_ifs <;> simp [hname]

theorem text?_toPairs (f : QueryField) :
    f.text? (p.toPairs writeInt) = p.textOf writeInt f := by
  simp [QueryField.text?, entry?_toPairs, Function.comp_def]

theorem extraErrors_toPairs : QueryField.extraErrors (p.toPairs writeInt) = [] := by
  refine QueryField.extraErrors_eq_nil_iff.mpr fun ⟨key, v⟩ he => ?_
  obtain ⟨f, -, heq⟩ := List.mem_map.mp (Dict.mem_given_iff.mp he)
  obtain ⟨rfl, hv⟩ := Prod.mk.inj heq
  exact ⟨f, by rw [entry?_toPairs, hv]; rfl⟩

variable {writeInt p}

theorem int?_toPairs_eq_ok_iff (hread : ∀ n, readInt (writeInt n) = .ok n) {f : QueryField}
    {ge : ℤ} {le : Option ℤ} {n? : Option ℤ} (hn : p.textOf writeInt f = n?.map writeInt)
    {o : Option (Bounded ge le)} :
    f.int? readInt ge le (p.toPairs writeInt) = .ok o ↔ o.map Bounded.val = n? := by
  have hentry := p.entry?_toPairs writeInt f
  rw [hn] at hentry
  cases n? with
  | none =>
    simp only [QueryField.int?, hentry, Option.map_none, Except.ok.injEq, Option.map_eq_none_iff]
    exact eq_comm
  | some n =>
    rw [QueryField.int?_eq_ok_iff hentry, hread, Option.map_eq_some_iff]
    simp only [Except.ok.injEq, eq_comm (a := n)]

end QueryParams

/-- A query string that gives each parameter once is validated as the parameters are. -/
theorem buildEventQuery_toPairs_eq_ok_iff {writeInt : ℤ → String}
    (hread : ∀ n, readInt (writeInt n) = .ok n) (p : QueryParams) (q : EventQuery) :
    buildEventQuery readInt (p.toPairs writeInt) = .ok q ↔
      EventQuery.modelValidate p = some q := by
  have hdict : Dict.ofPairs (p.toPairs writeInt) = p.toPairs writeInt :=
    Dict.ofPairs_eq_self (Dict.nodup_keys_given (p.nodup_keys_textOf writeInt))
  rw [buildEventQuery, hdict]
  rw [EventQuery.ofRaw_eq_ok_iff, EventQuery.modelValidate_eq_some_iff]
  have htext (f : QueryField) := p.text?_toPairs writeInt f
  constructor
  · intro h
    obtain ⟨o, ho, hfrom⟩ := h.fromId
    obtain ⟨o', ho', hlimit⟩ := h.limit
    rw [QueryParams.int?_toPairs_eq_ok_iff hread rfl] at ho ho'
    exact ⟨h.workgraphId.trans (htext .workgraphId), h.taskId.trans (htext .taskId),
      h.agentId.trans (htext .agentId), h.type.trans (htext .type),
      h.typeNamespace.trans (htext .typeNamespace),
      h.orgId.trans (congrArg (Option.getD · _) (htext .orgId)), hfrom.trans ho,
      hlimit.trans (congrArg (Option.getD · _) ho')⟩
  · rintro ⟨hworkgraph, htask, hagent, htype, hnamespace, horg, hfrom, hlimit⟩
    obtain ⟨o, ho⟩ : ∃ o : Option (Bounded 0 none), o.map Bounded.val = p.fromId :=
      Bounded.exists_map_val fun n hn => ⟨q.fromId_nonneg n (hfrom ▸ hn), nofun⟩
    obtain ⟨o', ho'⟩ : ∃ o : Option (Bounded 1 (some 1000)), o.map Bounded.val = p.limit := by
      refine Bounded.exists_map_val fun n hn => ?_
      obtain rfl : q.limit = n := by rw [hlimit, Option.mem_def.mp hn]; rfl
      exact ⟨q.limit_mem.1, fun u hu => Option.mem_some_iff.mp hu ▸ q.limit_mem.2⟩
    exact ⟨QueryField.extraErrors_eq_nil_iff.mp (p.extraErrors_toPairs writeInt),
      hworkgraph.trans (htext .workgraphId).symm, htask.trans (htext .taskId).symm,
      hagent.trans (htext .agentId).symm, htype.trans (htext .type).symm,
      hnamespace.trans (htext .typeNamespace).symm,
      horg.trans (congrArg (Option.getD · _) (htext .orgId).symm),
      ⟨o, (QueryParams.int?_toPairs_eq_ok_iff hread rfl).mpr ho, hfrom.trans ho.symm⟩,
      ⟨o', (QueryParams.int?_toPairs_eq_ok_iff hread rfl).mpr ho',
        hlimit.trans (congrArg (Option.getD · _) ho'.symm)⟩⟩

end Vfobs
