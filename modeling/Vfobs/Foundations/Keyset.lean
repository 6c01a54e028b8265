import Vfobs.Foundations.KeyOrder

/-!
# Keyset pagination

A list with integer keys, read page by page through an inclusive cursor: `page` takes the
first `n` elements that reach the cursor, and `nextCursor` follows a full page with the
successor of its last key.

A reader that collects the pages of a sorted list is `InStep` with it: what it holds is what
the list has before its cursor. A fetch keeps it in step or completes it (`InStep.fetch`),
and so does any change of the list between two fetches that adds nothing before the cursor
(`InStep.grow`). Each full page takes `n` elements off what is left (`rest_nextCursor`).
`page_append_rest` is for a list that grows at its end, and `mem_page_or_reaches` for one that
changes anywhere.
-/

namespace Keyset

open KeyOrder

variable {α : Type*} {key : α → ℤ} {cursor : Option ℤ} {n : ℕ} {l m : List α}

/-- `a` is not before the cursor. -/
def Reaches (key : α → ℤ) : Option ℤ → α → Prop
  | none, _ => True
  | some c, a => c ≤ key a

instance (key : α → ℤ) (cursor : Option ℤ) : DecidablePred (Reaches key cursor) := fun a =>
  match cursor with
  | none => isTrue trivial
  | some c => inferInstanceAs (Decidable (c ≤ key a))

/-- The part of `l` from the cursor on. -/
def rest (key : α → ℤ) (cursor : Option ℤ) (l : List α) : List α :=
  l.filter fun a => Reaches key cursor a

/-- The part of `l` before the cursor. -/
def seen (key : α → ℤ) (cursor : Option ℤ) (l : List α) : List α :=
  l.filter fun a => ¬ Reaches key cursor a

/-- The first `n` elements from the cursor on. -/
def page (key : α → ℤ) (cursor : Option ℤ) (n : ℕ) (l : List α) : List α :=
  (rest key cursor l).take n

/-- The cursor after a page: the successor of its last key when the page is full. -/
def nextCursor (key : α → ℤ) (n : ℕ) (p : List α) : Option ℤ :=
  if p.length = n then p.getLast?.map fun a => key a + 1 else none

@[simp]
theorem seen_none (l : List α) : seen key none l = [] := by simp [seen, Reaches]

theorem Reaches.mono {a b : α} (h : Reaches key cursor a) (hab : key a ≤ key b) :
    Reaches key cursor b := by
  cases cursor with
  | none => trivial
  | some c => exact le_trans h hab

theorem rest_map {β : Type*} (f : β → α) (l : List β) :
    rest key cursor (l.map f) = (rest (fun b => key (f b)) cursor l).map f := by
  rw [rest, List.filter_map]
  cases cursor <;> rfl

/-- The cursor cuts a sorted list in two. -/
theorem seen_append_rest (hl : Sorted key l) : seen key cursor l ++ rest key cursor l = l := by
  induction l with
  | nil => rfl
  | cons a l ih =>
    obtain ⟨hlt, htail⟩ := List.pairwise_cons.mp hl
    by_cases ha : Reaches key cursor a
    · -- everything after `a` reaches the cursor as well
      have hall : ∀ b ∈ l, Reaches key cursor b := fun b hb => ha.mono (hlt b hb).le
      have hseen : seen key cursor (a :: l) = [] := by simpa [seen, ha] using hall
      have hrest : rest key cursor (a :: l) = a :: l := by simpa [rest, ha] using hall
      rw [hseen, hrest, List.nil_append]
    · have hseen : seen key cursor (a :: l) = a :: seen key cursor l := by simp [seen, ha]
      have hrest : rest key cursor (a :: l) = rest key cursor l := by simp [rest, ha]
      rw [hseen, hrest, List.cons_append, ih htail]

theorem nextCursor_eq_some {p : List α} {c : ℤ} (h : nextCursor key n p = some c) :
    p.length = n ∧ ∃ init a, p = init ++ [a] ∧ c = key a + 1 := by
  rw [nextCursor] at h
  split_ifs at h with hlen
  obtain ⟨a, ha, rfl⟩ := Option.map_eq_some_iff.mp h
  obtain ⟨init, rfl⟩ := List.getLast?_eq_some_iff.mp ha
  exact ⟨hlen, init, a, rfl, rfl⟩

/-- A page without a successor is the whole rest. -/
theorem page_of_nextCursor_none (hn : 1 ≤ n)
    (h : nextCursor key n (page key cursor n l) = none) :
    page key cursor n l = rest key cursor l := by
  have hlen : (page key cursor n l).length ≠ n := by
    intro hlen
    rw [nextCursor, if_pos hlen, Option.map_eq_none_iff, List.getLast?_eq_none_iff] at h
    rw [h, List.length_nil] at hlen
    omega
  rw [page, List.length_take] at hlen
  exact List.take_of_length_le (by omega)

/-- What is left after a full page. -/
theorem rest_nextCursor (hl : Sorted key l) {c : ℤ}
    (h : nextCursor key n (page key cursor n l) = some c) :
    rest key (some c) l = (rest key cursor l).drop n ∧
      seen key (some c) l = seen key cursor l ++ page key cursor n l := by
  obtain ⟨-, init, a, hpage, rfl⟩ := nextCursor_eq_some h
  set s := seen key cursor l with hs
  set d := (rest key cursor l).drop n with hd
  have hcut : l = (s ++ (init ++ [a])) ++ d := by
    rw [← hpage, page, List.append_assoc, List.take_append_drop, seen_append_rest hl]
  have hsorted := hcut ▸ hl
  obtain ⟨hleft, -, hcross⟩ := List.pairwise_append.mp hsorted
  have hd' : ∀ b ∈ d, key a + 1 ≤ key b := fun b hb => hcross a (by simp) b hb
  have hs' : ∀ b ∈ s ++ (init ++ [a]), key b < key a + 1 := by
    intro b hb
    rw [← List.append_assoc] at hb hleft
    rcases List.mem_append.mp hb with hb | hb
    · exact Int.lt_add_one_of_le ((List.pairwise_append.mp hleft).2.2 b hb a (by simp)).le
    · rw [List.mem_singleton.mp hb]
      exact Int.lt_succ (key a)
  rw [hpage]
  constructor
  · conv_lhs => rw [hcut]
    rw [rest, List.filter_append, List.filter_eq_nil_iff.mpr, List.nil_append,
      List.filter_eq_self.mpr]
    · exact fun b hb => decide_eq_true (hd' b hb)
    · exact fun b hb h => absurd (hs' b hb) (not_lt.mpr (of_decide_eq_true h))
  · conv_lhs => rw [hcut]
    rw [seen, List.filter_append, List.filter_eq_self.mpr, List.filter_eq_nil_iff.mpr,
      List.append_nil]
    · exact fun b hb => by simpa [Reaches] using hd' b hb
    · exact fun b hb => by simpa [Reaches] using hs' b hb

/-- The new cursor is the successor of a key at or after the old one. -/
theorem nextCursor_mem {c : ℤ} (h : nextCursor key n (page key cursor n l) = some c) :
    ∃ a ∈ l, Reaches key cursor a ∧ c = key a + 1 := by
  obtain ⟨-, init, a, hpage, rfl⟩ := nextCursor_eq_some h
  have ha : a ∈ rest key cursor l := List.mem_of_mem_take (by rw [← page, hpage]; simp)
  rw [rest, List.mem_filter, decide_eq_true_eq] at ha
  exact ⟨a, ha.1, ha.2, rfl⟩

/-- The keys of a page are before the new cursor. -/
theorem lt_nextCursor (hl : Sorted key l) {c : ℤ}
    (h : nextCursor key n (page key cursor n l) = some c) {a : α} (ha : a ∈ page key cursor n l) :
    key a < c := by
  have hseen : a ∈ seen key (some c) l := by
    rw [(rest_nextCursor hl h).2]
    exact List.mem_append_right _ ha
  rw [seen, List.mem_filter, decide_eq_true_eq] at hseen
  exact not_le.mp hseen.2

/-- **What the cursor has not passed** is on the next page, or not passed by the new cursor. -/
theorem mem_page_or_reaches (hl : Sorted key l) (hn : 1 ≤ n) {a : α} (ha : a ∈ l)
    (hreach : Reaches key cursor a) :
    a ∈ page key cursor n l ∨ ∃ c, nextCursor key n (page key cursor n l) = some c ∧ c ≤ key a := by
  have hrest : a ∈ rest key cursor l := List.mem_filter.mpr ⟨ha, decide_eq_true hreach⟩
  cases hnext : nextCursor key n (page key cursor n l) with
  | none =>
    rw [page_of_nextCursor_none hn hnext]
    exact .inl hrest
  | some c =>
    rw [← List.take_append_drop n (rest key cursor l), List.mem_append] at hrest
    refine hrest.imp id fun hdrop => ⟨c, rfl, ?_⟩
    rw [← (rest_nextCursor hl hnext).1, rest, List.mem_filter, decide_eq_true_eq] at hdrop
    exact hdrop.2

/-- **A page of a list that goes on growing at its end**: with what is left of the longer list,
it makes what the longer list has from the cursor on. -/
theorem page_append_rest (hm : Sorted key m) (hgrows : l <+: m) {c : ℤ}
    (h : nextCursor key n (page key cursor n l) = some c) :
    page key cursor n l ++ rest key (some c) m = rest key cursor m := by
  have hsame : page key cursor n m = page key cursor n l := by
    obtain ⟨later, rfl⟩ := hgrows
    have hfull : (page key cursor n l).length = n := (nextCursor_eq_some h).1
    have hlen : n ≤ (rest key cursor l).length := by
      rw [page, List.length_take] at hfull
      omega
    rw [page, rest, List.filter_append]
    exact List.take_append_of_le_length hlen
  rw [← hsame] at h ⊢
  rw [(rest_nextCursor hm h).1, page, List.take_append_drop]

/-! ### A reader in step with the list -/

/-- The reader holds what the list has before the cursor. -/
def InStep (key : α → ℤ) (l : List α) (cursor : Option ℤ) (out : List α) : Prop :=
  out = seen key cursor l

theorem inStep_start (l : List α) : InStep key l none [] := (seen_none l).symm

/-- **Fetching a page** completes the reader or keeps it in step. -/
theorem InStep.fetch {out : List α} (h : InStep key l cursor out) (hl : Sorted key l)
    (hn : 1 ≤ n) :
    match nextCursor key n (page key cursor n l) with
    | none => out ++ page key cursor n l = l
    | some c => InStep key l (some c) (out ++ page key cursor n l) := by
  cases hnext : nextCursor key n (page key cursor n l) with
  | none =>
    show out ++ page key cursor n l = l
    rw [page_of_nextCursor_none hn hnext, h, seen_append_rest hl]
  | some c =>
    show out ++ page key cursor n l = seen key (some c) l
    rw [(rest_nextCursor hl hnext).2, h]

/-- **Growth at or after the cursor** keeps the reader in step. -/
theorem InStep.grow {out : List α} (h : InStep key l cursor out) (hl : Sorted key l)
    (hm : Sorted key m) (hsub : ∀ a ∈ l, a ∈ m)
    (hnew : ∀ a ∈ m, a ∈ l ∨ Reaches key cursor a) : InStep key m cursor out := by
  refine h.trans ((hl.filter _).eq_of_mem_iff (hm.filter _) fun a => ?_)
  simp only [seen, List.mem_filter, decide_eq_true_eq]
  constructor
  · rintro ⟨ha, hbefore⟩
    exact ⟨hsub a ha, hbefore⟩
  · rintro ⟨ha, hbefore⟩
    exact ⟨(hnew a ha).resolve_right hbefore, hbefore⟩

end Keyset
