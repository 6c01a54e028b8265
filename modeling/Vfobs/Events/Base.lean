import Vfobs.Foundations.Json
import Mathlib.Data.List.DropRight

/-!
# The base of the event models

Namespaces, classification, and the string handling that `model_config` and the field
constraints of `Event` ask for: every string of the envelope is stripped
(`str_strip_whitespace`), and `workgraph_id` and `source` must not be empty afterwards
(`min_length=1`). `Stripped` says that a string has been through this.
-/

namespace Vfobs

/-- `EventNamespace`. -/
inductive EventNamespace
  | workgraph
  | task
  | harness
  | gate
  | judge
  | anomaly
  deriving DecidableEq

/-- `EventNamespace.value`. -/
def EventNamespace.value : EventNamespace → String
  | .workgraph => "workgraph"
  | .task => "task"
  | .harness => "harness"
  | .gate => "gate"
  | .judge => "judge"
  | .anomaly => "anomaly"

/-- `_VALID_NAMESPACES`. -/
def validNamespaces : List String :=
  [EventNamespace.workgraph, .task, .harness, .gate, .judge, .anomaly].map EventNamespace.value

/-- The part of a type before its first dot: `v.partition(".")[0]`,
`ev.type.split(".", 1)[0]`. -/
def namespaceOf (type : String) : String := String.ofList (type.toList.takeWhile (· ≠ '.'))

/-- The check of `_type_has_known_namespace`. -/
def typeHasKnownNamespace (type : String) : Prop := namespaceOf type ∈ validNamespaces

instance (type : String) : Decidable (typeHasKnownNamespace type) :=
  inferInstanceAs (Decidable (_ ∈ _))

/-- `Classification`. -/
inductive Classification
  | pub
  | internal
  | secret
  deriving DecidableEq

/-- `Classification.value`. -/
def Classification.value : Classification → String
  | .pub => "public"
  | .internal => "internal"
  | .secret => "secret"

/-- `Classification(s)`; `none` is the validation error. -/
def Classification.ofValue? (s : String) : Option Classification :=
  [pub, internal, secret].find? fun c => c.value = s

@[simp]
theorem Classification.ofValue?_value (c : Classification) : ofValue? c.value = some c := by
  cases c <;> rfl

instance : JsonCodec Classification where
  dump c := .str c.value
  validate j := j.asStr?.bind Classification.ofValue?
  validate_dump := Classification.ofValue?_value
  dump_ne_null _ := nofun

/-! ### Strings -/

/-- White space, as `str.strip` and Unicode have it. -/
def isSpace (c : Char) : Bool :=
  (9 ≤ c.toNat && c.toNat ≤ 13) || c.toNat = 0x20 || c.toNat = 0x85 || c.toNat = 0xA0 ||
    c.toNat = 0x1680 || (0x2000 ≤ c.toNat && c.toNat ≤ 0x200A) || c.toNat = 0x2028 ||
    c.toNat = 0x2029 || c.toNat = 0x202F || c.toNat = 0x205F || c.toNat = 0x3000

/-- `str.strip` on characters: drop the white space at both ends. -/
def stripChars (cs : List Char) : List Char := (cs.dropWhile isSpace).rdropWhile isSpace

theorem stripChars_stripChars (cs : List Char) : stripChars (stripChars cs) = stripChars cs := by
  -- what is left at the right end is a prefix, so its first character is still no space
  have hdrop : (stripChars cs).dropWhile isSpace = stripChars cs := by
    have hpre := List.rdropWhile_prefix isSpace (l := cs.dropWhile isSpace)
    cases hs : stripChars cs with
    | nil => rfl
    | cons c rest =>
      rw [← stripChars, hs] at hpre
      obtain ⟨t, ht⟩ := hpre
      have hc := List.head?_dropWhile_not isSpace cs
      rw [← ht] at hc
      have hfalse : isSpace c = false := by simpa using hc
      rw [List.dropWhile_cons, hfalse]
      rfl
  rw [stripChars, hdrop, stripChars, List.rdropWhile_idempotent]

/-- `str.strip`. -/
def strip (s : String) : String := String.ofList (stripChars s.toList)

/-- A string that stripping leaves as it is. -/
def Stripped (s : String) : Prop := strip s = s

instance (s : String) : Decidable (Stripped s) := inferInstanceAs (Decidable (_ = _))

theorem stripped_strip (s : String) : Stripped (strip s) := by
  rw [Stripped, strip, strip, String.toList_ofList, stripChars_stripChars]

end Vfobs
