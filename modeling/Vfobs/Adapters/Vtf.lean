import Vfobs.Foundations.Exceptions
import Vfobs.Foundations.Json
import Mathlib.Algebra.Order.Field.Rat

/-!
# The vtaskforge client

`Upstream` is what a call of the HTTP client comes to: an exception while sending, or a
response with its status and its body. `loads` stands for `Response.json` throughout, which
may raise on any body.

`validateToken` turns each of these outcomes into a principal or a `VtfAuthError`; it is a
principal exactly when the status is `200` and the body is JSON that `VtfPrincipal` accepts
(`validateToken_eq_ok_iff`). The metadata calls never raise: `getMetadata` is `None` unless the
status is `200` and the body a JSON object that the metadata model accepts
(`getMetadata_eq_some_iff`).

How an integer is read off a text is the matter of the validation library: `readInt` stands for
it, its error being the type of the validation error.
-/

namespace Vfobs

open JsonCodec

/-! ### The projections of vtaskforge's resources -/

/-- `int | str`. -/
inductive IntOrStr
  | int (n : ℤ)
  | str (s : String)
  deriving DecidableEq

namespace IntOrStr

/-- `str(x)`. -/
def text : IntOrStr → String
  | int n => toString n
  | str s => s

/-- Validate an `int | str`: each of its types first takes the values that are of it, then
`int` those that can be converted without loss, a float only in the range of 64 bits. -/
def ofJson : Json → Option IntOrStr
  | .int n => some (int n)
  | .str s => some (str s)
  | .bool b => some (int (if b then 1 else 0))
  | .float q => if q.den = 1 ∧ |q| < 2 ^ 63 then some (int q.num) else none
  | _ => none

end IntOrStr

/-- Validate a `bool`. -/
def boolOfJson : Json → Option Bool
  | .bool b => some b
  | .int n => boolOfRat n
  | .float q => boolOfRat q
  | .str s =>
    if s.toLower ∈ ["1", "t", "y", "on", "yes", "true"] then some true
    else if s.toLower ∈ ["0", "f", "n", "no", "off", "false"] then some false
    else none
  | _ => none
where
  /-- `1` and `0`. -/
  boolOfRat (q : ℚ) : Option Bool :=
    if q = 1 then some true else if q = 0 then some false else none

/-- Validate an `int`. -/
def intOfJson (readInt : String → Except String ℤ) : Json → Option ℤ
  | .int n => some n
  | .bool b => some (if b then 1 else 0)
  | .float q => if q.den = 1 ∧ |q| < 2 ^ 63 then some q.num else none
  | .str s => (readInt s).toOption
  | _ => none

/-- A field that defaults to `None`, of a type that `read` validates. -/
def nullableBy {α : Type} (read : Json → Option α) (fs : List (String × Json)) (key : String) :
    Option (Option α) :=
  match fs.lookup key with
  | none | some .null => some none
  | some j => (read j).map some

/-- `VtfPrincipal`. -/
structure VtfPrincipal where
  userId : IntOrStr
  username : Option String := none
  userType : Option String := none
  isStaff : Bool := false

/-- `VtfPrincipal.model_validate`; `none` is a `ValidationError`. Other fields are ignored. -/
def VtfPrincipal.modelValidate : Json → Option VtfPrincipal
  | .obj fs => do
    let userId ← (fs.lookup "user_id").bind IntOrStr.ofJson
    let username ← nullable fs "username"
    let userType ← nullable fs "user_type"
    let isStaff ← match fs.lookup "is_staff" with
      | none => some false
      | some j => boolOfJson j
    some { userId, username, userType, isStaff }
  | _ => none

/-- `WorkgraphMetadata`, the milestone of a workgraph. -/
structure WorkgraphMetadata where
  id : IntOrStr
  name : Option String := none
  status : Option String := none
  description : Option String := none
  order : Option ℤ := none
  workplan : Option IntOrStr := none

/-- `TaskMetadata`. -/
structure TaskMetadata where
  id : IntOrStr
  title : Option String := none
  status : Option String := none
  description : Option String := none

/-- `WorkgraphMetadata.model_validate`. -/
def WorkgraphMetadata.modelValidate (readInt : String → Except String ℤ) :
    Json → Option WorkgraphMetadata
  | .obj fs => do
    let id ← (fs.lookup "id").bind IntOrStr.ofJson
    let name ← nullable fs "name"
    let status ← nullable fs "status"
    let description ← nullable fs "description"
    let order ← nullableBy (intOfJson readInt) fs "order"
    let workplan ← nullableBy IntOrStr.ofJson fs "workplan"
    some { id, name, status, description, order, workplan }
  | _ => none

/-- `TaskMetadata.model_validate`. -/
def TaskMetadata.modelValidate : Json → Option TaskMetadata
  | .obj fs => do
    let id ← (fs.lookup "id").bind IntOrStr.ofJson
    let title ← nullable fs "title"
    let status ← nullable fs "status"
    let description ← nullable fs "description"
    some { id, title, status, description }
  | _ => none

/-! ### Calls -/

/-- What a call of the HTTP client comes to; bodies are of type `β`. -/
inductive Upstream (β : Type)
  /-- An exception while the request is built or sent. -/
  | raises (e : PyException)
  | response (statusCode : ℕ) (body : β)

variable {β : Type} (loads : β → Except PyException Json)

/-- The `try` block of a `200`: parse the body, then validate it. -/
def parsePrincipal (body : β) : Except PyException VtfPrincipal := do
  let j ← loads body
  match VtfPrincipal.modelValidate j with
  | some who => .ok who
  | none => .error (.other "ValidationError" "VtfPrincipal")

/-- `validate_token`, on the outcome of its call. -/
def validateToken : Upstream β → Except PyException VtfPrincipal
  | .raises e => .error (.vtfAuth ("vtaskforge unreachable: " ++ e.message))
  | .response statusCode body =>
    if statusCode = 200 then
      (parsePrincipal loads body).mapError fun e =>
        .vtfAuth ("validate returned unparseable 200: " ++ e.message)
    else .error (.vtfAuth ("token not valid (status " ++ toString statusCode ++ ")"))

/-- `_get_json`, on the outcome of its call. -/
def getJson : Upstream β → Option Json
  | .raises _ => none
  | .response statusCode body => if statusCode ≠ 200 then none else (loads body).toOption

/-- The metadata of a resource, on the outcome of the call for it: what `modelValidate` makes of
a dictionary. -/
def getMetadata {μ : Type} (modelValidate : Json → Option μ) (upstream : Upstream β) : Option μ :=
  match getJson loads upstream with
  | some (.obj fs) => modelValidate (.obj fs)
  -- `not isinstance(data, dict)`
  | _ => none

/-- `VtfClient.get_workgraph`. -/
def VtfClient.getWorkgraph (readInt : String → Except String ℤ) :
    Upstream β → Option WorkgraphMetadata :=
  getMetadata loads (WorkgraphMetadata.modelValidate readInt)

/-- `VtfClient.get_task`. -/
def VtfClient.getTask : Upstream β → Option TaskMetadata :=
  getMetadata loads TaskMetadata.modelValidate

variable {loads} {upstream : Upstream β}

theorem getJson_eq_some_iff {j : Json} :
    getJson loads upstream = some j ↔
      ∃ body, upstream = .response 200 body ∧ loads body = .ok j := by
  cases upstream with
  | raises e => simp [getJson]
  | response statusCode body =>
    rw [getJson]
    split_ifs with hstatus
    · simp [hstatus]
    · rw [not_not] at hstatus
      subst hstatus
      cases hj : loads body with
      | error e => simp [Except.toOption, hj]
      | ok j' => simp [Except.toOption, hj]

/-- **When there is metadata**: the status is `200`, and the body is a JSON object that the model
accepts. -/
theorem getMetadata_eq_some_iff {μ : Type} {modelValidate : Json → Option μ} {m : μ} :
    getMetadata loads modelValidate upstream = some m ↔
      ∃ body fs, upstream = .response 200 body ∧ loads body = .ok (.obj fs) ∧
        modelValidate (.obj fs) = some m := by
  constructor
  · intro h
    rw [getMetadata] at h
    split at h
    · next fs hjson =>
      obtain ⟨body, hbody, hfs⟩ := getJson_eq_some_iff.mp hjson
      exact ⟨body, fs, hbody, hfs, h⟩
    · exact nomatch h
  · rintro ⟨body, fs, hbody, hfs, hm⟩
    rw [getMetadata, getJson_eq_some_iff.mpr ⟨body, hbody, hfs⟩]
    exact hm

theorem parsePrincipal_eq_ok_iff {body : β} {who : VtfPrincipal} :
    parsePrincipal loads body = .ok who ↔
      ∃ j, loads body = .ok j ∧ VtfPrincipal.modelValidate j = some who := by
  rw [parsePrincipal]
  cases hj : loads body with
  | error e => simp [bind, Except.bind]
  | ok j => cases hwho : VtfPrincipal.modelValidate j <;> simp [bind, Except.bind, hwho]

/-- **When a token is validated**: the status is `200`, and the body is JSON that describes a
principal. -/
theorem validateToken_eq_ok_iff {who : VtfPrincipal} :
    validateToken loads upstream = .ok who ↔
      ∃ body j, upstream = .response 200 body ∧ loads body = .ok j ∧
        VtfPrincipal.modelValidate j = some who := by
  cases upstream with
  | raises e => simp [validateToken]
  | response statusCode body =>
    have hparse : parsePrincipal loads body = .ok who ↔ _ := parsePrincipal_eq_ok_iff
    rw [validateToken]
    split_ifs with hstatus
    · subst hstatus
      simp only [Upstream.response.injEq, true_and]
      cases hp : parsePrincipal loads body with
      | error e => simp [Except.mapError, ← hparse, hp]
      | ok who' => simpa [Except.mapError, hp] using hparse
    · simp [hstatus]

/-- Nothing but a `VtfAuthError` reaches the caller. -/
theorem vtfAuth_of_validateToken_error {e : PyException}
    (h : validateToken loads upstream = .error e) : ∃ message, e = .vtfAuth message := by
  cases upstream with
  | raises e => exact ⟨_, (Except.error.inj h).symm⟩
  | response statusCode body =>
    rw [validateToken] at h
    split_ifs at h
    · cases hp : parsePrincipal loads body with
      | error e =>
        rw [hp] at h
        exact ⟨_, (Except.error.inj h).symm⟩
      | ok who =>
        rw [hp] at h
        exact nomatch h
    · exact ⟨_, (Except.error.inj h).symm⟩

end Vfobs
