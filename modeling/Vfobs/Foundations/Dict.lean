import Mathlib.Data.List.Induction
import Mathlib.Data.List.Nodup

/-!
# A dictionary built from pairs

`Dict.ofPairs` is the dictionary of a list of pairs with repeated keys, as a list in the order
in which the keys were first given. A later value of a key replaces the earlier one in place, so
that a look-up finds the last value given (`lookup_ofPairs`).
-/

namespace Dict

variable {κ ν : Type*} [DecidableEq κ]

/-- Set the value of a key. -/
def insert : List (κ × ν) → κ → ν → List (κ × ν)
  | [], key, v => [(key, v)]
  | (j, w) :: d, key, v => if j = key then (key, v) :: d else (j, w) :: insert d key v

/-- The dictionary of a list of pairs. -/
def ofPairs (pairs : List (κ × ν)) : List (κ × ν) :=
  pairs.foldl (fun d p => insert d p.1 p.2) []

/-- The last value that a list of pairs gives for a key. -/
def last? (pairs : List (κ × ν)) (key : κ) : Option ν := pairs.reverse.lookup key

variable {pairs d : List (κ × ν)} {key j : κ} {v w : ν}

/-! ### Look-ups in a list of pairs -/

theorem lookup_cons_of_ne {k : κ} {u : ν} (h : j ≠ k) :
    ((k, u) :: d).lookup j = d.lookup j := by
  rw [List.lookup_cons, beq_false_of_ne h]

theorem mem_of_lookup_eq_some (h : d.lookup key = some v) : (key, v) ∈ d := by
  obtain ⟨l₁, l₂, rfl, -⟩ := List.lookup_eq_some_iff.mp h
  exact List.mem_append_right _ List.mem_cons_self

theorem exists_lookup_eq_some (h : (key, v) ∈ d) : ∃ w, d.lookup key = some w :=
  Option.isSome_iff_exists.mp (List.lookup_isSome_iff.mpr ⟨_, h, beq_self_eq_true _⟩)

/-- Among distinct keys every entry is found. -/
theorem lookup_eq_some_iff_mem (hnodup : (d.map Prod.fst).Nodup) :
    d.lookup key = some v ↔ (key, v) ∈ d := by
  refine ⟨mem_of_lookup_eq_some, fun h => ?_⟩
  obtain ⟨w, hw⟩ := exists_lookup_eq_some h
  have heq : (key, w) = (key, v) :=
    List.inj_on_of_nodup_map hnodup (mem_of_lookup_eq_some hw) h rfl
  rw [hw, (Prod.mk.inj heq).2]

theorem mem_of_last?_eq_some (h : last? pairs key = some v) : (key, v) ∈ pairs :=
  List.mem_reverse.mp (mem_of_lookup_eq_some h)

theorem exists_last?_eq_some (h : (key, v) ∈ pairs) : ∃ w, last? pairs key = some w :=
  exists_lookup_eq_some (List.mem_reverse.mpr h)

/-! ### The dictionary -/

theorem lookup_insert (d : List (κ × ν)) (key j : κ) (v : ν) :
    (insert d key v).lookup j = if j = key then some v else d.lookup j := by
  induction d with
  | nil => by_cases hj : j = key <;> simp [insert, hj]
  | cons e d ih =>
    obtain ⟨k, u⟩ := e
    by_cases hk : k = key
    · subst hk
      by_cases hj : j = k <;> simp [insert, lookup_cons_of_ne, hj]
    · by_cases hj : j = k
      · simp [insert, hk, hj]
      · simp [insert, hk, lookup_cons_of_ne, hj, ih]

theorem insert_of_notMem (h : key ∉ d.map Prod.fst) : insert d key v = d ++ [(key, v)] := by
  induction d with
  | nil => rfl
  | cons e d ih =>
    rw [List.map_cons, List.mem_cons, not_or] at h
    rw [insert, if_neg (Ne.symm h.1), ih h.2, List.cons_append]

theorem keys_insert (d : List (κ × ν)) (key : κ) (v : ν) :
    (insert d key v).map Prod.fst =
      if key ∈ d.map Prod.fst then d.map Prod.fst else d.map Prod.fst ++ [key] := by
  induction d with
  | nil => simp [insert]
  | cons e d ih =>
    by_cases he : e.1 = key
    · simp [insert, he]
    · have hne : ¬ key = e.1 := Ne.symm he
      simp only [insert, if_neg he, List.map_cons, ih, List.mem_cons, hne, false_or]
      split_ifs <;> simp

theorem ofPairs_concat (pairs : List (κ × ν)) (p : κ × ν) :
    ofPairs (pairs ++ [p]) = insert (ofPairs pairs) p.1 p.2 := by
  simp [ofPairs]

theorem nodup_keys_ofPairs (pairs : List (κ × ν)) : ((ofPairs pairs).map Prod.fst).Nodup := by
  induction pairs using List.reverseRecOn with
  | nil => simp [ofPairs]
  | append_singleton pairs p ih =>
    rw [ofPairs_concat, keys_insert]
    split_ifs with hmem
    · exact ih
    · exact List.nodup_append.mpr ⟨ih, List.nodup_singleton _, by
        rintro a ha b hb rfl
        exact hmem (List.mem_singleton.mp hb ▸ ha)⟩

/-- **A look-up finds the last value given.** -/
theorem lookup_ofPairs (pairs : List (κ × ν)) (key : κ) :
    (ofPairs pairs).lookup key = last? pairs key := by
  induction pairs using List.reverseRecOn with
  | nil => rfl
  | append_singleton pairs p ih =>
    obtain ⟨k, u⟩ := p
    rw [ofPairs_concat, lookup_insert, ih, last?, last?, List.reverse_concat]
    by_cases h : key = k <;> simp [lookup_cons_of_ne, h]

theorem mem_ofPairs_iff : (key, v) ∈ ofPairs pairs ↔ last? pairs key = some v := by
  rw [← lookup_eq_some_iff_mem (nodup_keys_ofPairs pairs), lookup_ofPairs]

/-- A list without repeated keys is its own dictionary. -/
theorem ofPairs_eq_self (hnodup : (pairs.map Prod.fst).Nodup) : ofPairs pairs = pairs := by
  induction pairs using List.reverseRecOn with
  | nil => rfl
  | append_singleton pairs p ih =>
    rw [List.map_append, List.nodup_append] at hnodup
    rw [ofPairs_concat, ih hnodup.1]
    exact insert_of_notMem fun h => hnodup.2.2 _ h _ (List.mem_singleton_self _) rfl

/-! ### Pairs that may be missing -/

/-- The pairs whose value is given. -/
def given (d : List (κ × Option ν)) : List (κ × ν) := d.filterMap fun e => e.2.map (e.1, ·)

omit [DecidableEq κ] in
theorem mem_given_iff {d : List (κ × Option ν)} : (key, v) ∈ given d ↔ (key, some v) ∈ d := by
  simp [given, and_left_comm]

omit [DecidableEq κ] in
theorem nodup_keys_given {d : List (κ × Option ν)} (hnodup : (d.map Prod.fst).Nodup) :
    ((given d).map Prod.fst).Nodup := by
  induction d with
  | nil => exact List.nodup_nil
  | cons e d ih =>
    obtain ⟨k, o⟩ := e
    rw [List.map_cons, List.nodup_cons] at hnodup
    cases o with
    | none => exact ih hnodup.2
    | some u =>
      refine List.nodup_cons.mpr ⟨fun hmem => ?_, ih hnodup.2⟩
      obtain ⟨⟨k', u'⟩, hu', rfl⟩ := List.mem_map.mp hmem
      exact hnodup.1 (List.mem_map.mpr ⟨_, mem_given_iff.mp hu', rfl⟩)

theorem lookup_given {d : List (κ × Option ν)} (hnodup : (d.map Prod.fst).Nodup) :
    (given d).lookup key = (d.lookup key).join := by
  ext v
  rw [lookup_eq_some_iff_mem (nodup_keys_given hnodup), mem_given_iff,
    ← lookup_eq_some_iff_mem hnodup, Option.join_eq_some_iff]

end Dict
