import Mathlib.Data.List.Basic

/-!
# A bounded queue that drops its oldest entries

`push maxlen q x` appends `x` to `q` and keeps the last `maxlen` entries; `evicted` is what
falls off the front. Nothing is invented and nothing is reordered:
`evicted maxlen q x ++ push maxlen q x = q ++ [x]`.
-/

namespace BoundedQueue

variable {α : Type*} {maxlen : ℕ} {q : List α} {x : α}

/-- Append at the back, keeping the last `maxlen` entries. -/
def push (maxlen : ℕ) (q : List α) (x : α) : List α := (q ++ [x]).drop (q.length + 1 - maxlen)

/-- The entries a `push` drops from the front. -/
def evicted (maxlen : ℕ) (q : List α) (x : α) : List α :=
  (q ++ [x]).take (q.length + 1 - maxlen)

/-- A push conserves entries and their order. -/
theorem evicted_append_push (maxlen : ℕ) (q : List α) (x : α) :
    evicted maxlen q x ++ push maxlen q x = q ++ [x] :=
  List.take_append_drop _ _

theorem length_push_le : (push maxlen q x).length ≤ maxlen := by
  simp only [push, List.length_drop, List.length_append, List.length_singleton]
  omega

/-- Nothing is dropped while there is room. -/
theorem evicted_of_lt (h : q.length < maxlen) : evicted maxlen q x = [] := by
  have hz : q.length + 1 - maxlen = 0 := by omega
  rw [evicted, hz, List.take_zero]

/-- A push on a full queue drops exactly the oldest entry. -/
theorem evicted_of_full {y : α} {rest : List α} (hq : q = y :: rest) (h : q.length = maxlen) :
    evicted maxlen q x = [y] := by
  have hone : q.length + 1 - maxlen = 1 := by omega
  rw [evicted, hone, hq, List.cons_append, List.take_succ_cons, List.take_zero]

end BoundedQueue
