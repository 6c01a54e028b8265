import Mathlib.Data.List.MinMax
import Mathlib.Data.List.Perm.Basic
import Mathlib.Data.List.Sort
import Mathlib.Order.OrderDual

/-!
# Lists ordered by a key

`sort key l` orders `l` by a key in a linear order; a descending order is an ascending one of
the dual. With distinct keys the result is the one strictly increasing list with the
members of `l` (`Sorted.eq_of_mem_iff`), so it does not depend on the order of `l`
(`sort_eq_of_perm`) and commutes with filtering (`filter_sort`).
-/

namespace KeyOrder

variable {α β κ : Type*} [LinearOrder κ] {key : α → κ} {l m : List α}

/-- The keys are strictly increasing. -/
def Sorted (key : α → κ) (l : List α) : Prop := l.Pairwise fun a b => key a < key b

/-- `l`, ordered by `key`. -/
def sort (key : α → κ) (l : List α) : List α := l.insertionSort fun a b => key a ≤ key b

/-- An element with the highest key. -/
def maxBy (key : α → κ) (l : List α) : Option α := l.argmax key

theorem sort_perm (key : α → κ) (l : List α) : (sort key l).Perm l := List.perm_insertionSort _ l

@[simp]
theorem mem_sort {a : α} : a ∈ sort key l ↔ a ∈ l := List.mem_insertionSort _

@[simp]
theorem length_sort (key : α → κ) (l : List α) : (sort key l).length = l.length :=
  List.length_insertionSort _ l

theorem pairwise_sort (key : α → κ) (l : List α) :
    (sort key l).Pairwise fun a b => key a ≤ key b := by
  have : Std.Total fun a b : α => key a ≤ key b := ⟨fun a b => le_total (key a) (key b)⟩
  have : IsTrans α fun a b => key a ≤ key b := ⟨fun _ _ _ => le_trans⟩
  exact List.pairwise_insertionSort _ l

theorem sorted_sort (hnodup : (l.map key).Nodup) : Sorted key (sort key l) := by
  have hperm : ((sort key l).map key).Nodup := ((sort_perm key l).map key).nodup_iff.mpr hnodup
  have hne : (sort key l).Pairwise fun a b => key a ≠ key b := List.pairwise_map.mp hperm
  exact (pairwise_sort key l).imp₂ (fun _ _ hle hne => lt_of_le_of_ne hle hne) hne

namespace Sorted

/-- **Key result.** A sorted list is determined by its members. -/
theorem eq_of_mem_iff (hl : Sorted key l) (hm : Sorted key m) (h : ∀ a, a ∈ l ↔ a ∈ m) :
    l = m := by
  have : Std.Irrefl fun a b : α => key a < key b := ⟨fun a => lt_irrefl (key a)⟩
  have : Std.Antisymm fun a b : α => key a < key b :=
    ⟨fun _ _ hab hba => absurd hba (lt_asymm hab)⟩
  exact List.Pairwise.eq_of_mem_iff hl hm h

theorem filter (h : Sorted key l) (p : α → Bool) : Sorted key (l.filter p) :=
  List.Pairwise.filter p h

theorem nodup (h : Sorted key l) : (l.map key).Nodup :=
  List.pairwise_map.mpr (h.imp ne_of_lt)

end Sorted

theorem sort_eq_of_perm (hnodup : (l.map key).Nodup) (h : l.Perm m) : sort key l = sort key m :=
  (sorted_sort hnodup).eq_of_mem_iff (sorted_sort ((h.map key).nodup_iff.mp hnodup))
    fun a => by simp [h.mem_iff]

theorem filter_sort (hnodup : (l.map key).Nodup) (p : α → Bool) :
    (sort key l).filter p = sort key (l.filter p) := by
  have hfilter : ((l.filter p).map key).Nodup :=
    hnodup.sublist ((List.filter_sublist (p := p)).map key)
  refine ((sorted_sort hnodup).filter p).eq_of_mem_iff (sorted_sort hfilter) fun a => ?_
  simp only [List.mem_filter, mem_sort]

theorem sort_map (f : β → α) (l : List β) :
    sort key (l.map f) = (sort (fun b => key (f b)) l).map f :=
  (List.map_insertionSort _ _ f l fun _ _ _ _ => Iff.rfl).symm

/-- The element of a key, and the rest. -/
theorem perm_cons_filter_ne {a : α} (hnodup : (l.map key).Nodup) (ha : a ∈ l) :
    l.Perm (a :: l.filter fun b => key b ≠ key a) := by
  induction l with
  | nil => exact absurd ha List.not_mem_nil
  | cons b l ih =>
    obtain ⟨hb, htail⟩ := List.nodup_cons.mp hnodup
    rcases List.mem_cons.mp ha with rfl | ha
    · have hkeep : l.filter (fun b => key b ≠ key a) = l := List.filter_eq_self.mpr fun c hc =>
        decide_eq_true fun hca => hb (hca ▸ List.mem_map_of_mem hc)
      rw [List.filter_cons_of_neg (by simp), hkeep]
    · have hne : key b ≠ key a := fun hba => hb (hba ▸ List.mem_map_of_mem ha)
      rw [List.filter_cons_of_pos (by simpa using hne)]
      exact ((ih htail ha).cons b).trans (.swap _ _ _)

/-- A permutation of a list of images is the list of images of a permutation. -/
theorem exists_perm_of_perm_map {f : β → α} {m : List β} (h : l.Perm (m.map f)) :
    ∃ m' : List β, m'.Perm m ∧ l = m'.map f := by
  have himage : List.Forall₂ (fun a b => a = f b) (m.map f) m := by
    rw [List.forall₂_map_left_iff]
    exact List.forall₂_same.mpr fun _ _ => rfl
  obtain ⟨m', hm', hperm⟩ := List.perm_comp_forall₂ h himage
  refine ⟨m', hperm, ?_⟩
  rwa [← List.forall₂_eq_eq_eq, List.forall₂_map_right_iff]

/-- The last element in the order is the one with the highest key. -/
theorem getLast?_sort (hnodup : (l.map key).Nodup) : (sort key l).getLast? = maxBy key l := by
  classical
  cases hlast : (sort key l).getLast? with
  | none =>
    have hnil : l = [] := by
      rw [← List.length_eq_zero_iff, ← length_sort key l, List.getLast?_eq_none_iff.mp hlast,
        List.length_nil]
    rw [hnil, maxBy, List.argmax_nil]
  | some a =>
    obtain ⟨init, hinit⟩ := List.getLast?_eq_some_iff.mp hlast
    have hmax : ∀ b ∈ l, key b ≤ key a := by
      intro b hb
      have hb' : b ∈ init ++ [a] := hinit ▸ mem_sort.mpr hb
      rcases List.mem_append.mp hb' with hb' | hb'
      · exact (List.pairwise_append.mp (hinit ▸ pairwise_sort key l)).2.2 b hb' a (by simp)
      · rw [List.mem_singleton.mp hb']
    have ha : a ∈ l := mem_sort.mp (List.mem_of_getLast? hlast)
    refine (List.argmax_eq_some_iff.mpr ⟨ha, hmax, fun b hb hba => ?_⟩).symm
    rw [List.inj_on_of_nodup_map hnodup hb ha (le_antisymm (hmax b hb) hba)]

theorem maxBy_eq_none_iff : maxBy key l = none ↔ l = [] := List.argmax_eq_none

theorem maxBy_eq_some_iff (hnodup : (l.map key).Nodup) {a : α} :
    maxBy key l = some a ↔ a ∈ l ∧ ∀ b ∈ l, key b ≤ key a := by
  constructor
  · exact fun h => ⟨List.argmax_mem h, fun b hb => List.le_of_mem_argmax hb h⟩
  · rintro ⟨ha, hmax⟩
    cases h : maxBy key l with
    | none => exact absurd (maxBy_eq_none_iff.mp h) (List.ne_nil_of_mem ha)
    | some c =>
      -- the two are as high as each other
      have hle : key a ≤ key c := List.le_of_mem_argmax ha h
      have hc : c ∈ l := List.argmax_mem h
      rw [List.inj_on_of_nodup_map hnodup ha hc (le_antisymm hle (hmax c hc))]

/-- Lower elements do not count for the highest. -/
theorem maxBy_append_of_lower (hnodup : ((l ++ m).map key).Nodup)
    (h : ∀ b ∈ m, ∃ a ∈ l, key b < key a) : maxBy key (l ++ m) = maxBy key l := by
  have hl : (l.map key).Nodup := (List.map_append ▸ hnodup).of_append_left
  cases hmax : maxBy key l with
  | none =>
    rw [maxBy_eq_none_iff] at hmax
    subst hmax
    have hm : m = [] := List.eq_nil_iff_forall_not_mem.mpr fun b hb => by simpa using h b hb
    rw [hm, List.append_nil, maxBy_eq_none_iff]
  | some a =>
    obtain ⟨ha, hle⟩ := (maxBy_eq_some_iff hl).mp hmax
    refine (maxBy_eq_some_iff hnodup).mpr ⟨List.mem_append_left m ha, fun b hb => ?_⟩
    rcases List.mem_append.mp hb with hb | hb
    · exact hle b hb
    · obtain ⟨c, hc, hlt⟩ := h b hb
      exact hlt.le.trans (hle c hc)

/-- The descending order is the ascending one reversed. -/
theorem sort_toDual (hnodup : (l.map key).Nodup) :
    sort (fun a => OrderDual.toDual (key a)) l = (sort key l).reverse := by
  have hdual : (l.map fun a => OrderDual.toDual (key a)).Nodup := hnodup
  refine (sorted_sort hdual).eq_of_mem_iff ?_ fun a => by simp
  exact List.pairwise_reverse.mpr (sorted_sort hnodup)

end KeyOrder
