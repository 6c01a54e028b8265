import Vfobs.Foundations.KeyOrder
import Mathlib.Algebra.BigOperators.Group.Finset.Basic
import Mathlib.Data.List.Induction
import Mathlib.Data.List.MinMax
import Mathlib.Data.Prod.Lex

/-!
# The latest element of each group

Elements carry a group and a position, positions being distinct. `IsLatest` says what the
latest element of a group is and `latests` lists the latest elements. Two ways to compute
them give the same elements, so that any sum over the one is the sum over the other.

* `distinctOn`, SQL's `DISTINCT ON`: keep the first element of each group of a list in which
  the groups are ordered by descending position (`distinctOn_perm_latests`).
* `keepLatest`, a loop over a dictionary: an element replaces the one held for its group when
  its position is higher (`keepLatest_perm_latests`). A sum over what it ends with is a sum
  over the groups (`sum_map_keepLatest`).

Where a list is ordered by position, the latest element of a group is its last one (`lastOf`), and
the latest elements are known from it (`map_latests_perm`).
-/

namespace LatestPer

variable {α γ ι : Type*} [DecidableEq γ] [LinearOrder ι] {group : α → γ} {pos : α → ι}
  {l m : List α}

/-- `a` is the element of its group with the highest position. -/
def IsLatest (group : α → γ) (pos : α → ι) (l : List α) (a : α) : Prop :=
  a ∈ l ∧ ∀ b ∈ l, group b = group a → pos b ≤ pos a

/-- The latest elements, one for each group. -/
def latests (group : α → γ) (pos : α → ι) (l : List α) : List α :=
  l.filter fun a => ∀ b ∈ l, group b = group a → pos b ≤ pos a

@[simp]
theorem mem_latests {a : α} : a ∈ latests group pos l ↔ IsLatest group pos l a := by
  simp [latests, IsLatest]

omit [DecidableEq γ] in
/-- A group has one latest element. -/
theorem IsLatest.eq_of_group_eq (hnodup : (l.map pos).Nodup) {a b : α}
    (ha : IsLatest group pos l a) (hb : IsLatest group pos l b) (h : group a = group b) :
    a = b :=
  List.inj_on_of_nodup_map hnodup ha.1 hb.1 (le_antisymm (hb.2 a ha.1 h) (ha.2 b hb.1 h.symm))

omit [DecidableEq γ] in
/-- The latest elements of a list with one more at its end. -/
theorem isLatest_concat_iff {x a : α} : IsLatest group pos (l ++ [x]) a ↔
    (a = x ∧ ∀ b ∈ l, group b = group x → pos b ≤ pos x) ∨
      (IsLatest group pos l a ∧ (group x = group a → pos x ≤ pos a)) := by
  simp only [IsLatest, List.mem_append, List.mem_singleton, or_imp, forall_and, forall_eq]
  constructor
  · rintro ⟨ha | rfl, hmax, hx⟩
    · exact .inr ⟨⟨ha, hmax⟩, hx⟩
    · exact .inl ⟨rfl, hmax⟩
  · rintro (⟨rfl, hmax⟩ | ⟨⟨ha, hmax⟩, hx⟩)
    · exact ⟨.inr rfl, hmax, fun _ => le_rfl⟩
    · exact ⟨.inl ha, hmax, hx⟩

theorem nodup_latests (h : l.Nodup) : (latests group pos l).Nodup := h.filter _

theorem latests_perm (h : l.Perm m) : (latests group pos l).Perm (latests group pos m) := by
  refine (h.filter _).trans (.of_eq (List.filter_congr fun a _ => ?_))
  simp only [h.mem_iff]

/-- Latest elements of a list of images. -/
theorem latests_map {β δ : Type*} [DecidableEq δ] {f : β → α} {group' : β → δ} {pos' : β → ι}
    {l : List β} (hgroup : ∀ a ∈ l, ∀ b ∈ l, group (f a) = group (f b) ↔ group' a = group' b)
    (hpos : ∀ a ∈ l, pos (f a) = pos' a) :
    latests group pos (l.map f) = (latests group' pos' l).map f := by
  rw [latests, List.filter_map]
  refine congrArg _ (List.filter_congr fun a ha => ?_)
  simp only [Function.comp_apply, List.mem_map, forall_exists_index, and_imp,
    forall_apply_eq_imp_iff₂]
  refine decide_eq_decide.mpr (forall₂_congr fun b hb => ?_)
  rw [hgroup b hb a ha, hpos a ha, hpos b hb]

/-! ### `DISTINCT ON` -/

/-- Keep the first element of each group. -/
def distinctOn (group : α → γ) : List α → List α
  | [] => []
  | a :: l => a :: (distinctOn group l).filter fun b => group b ≠ group a

/-- One element for each group. -/
theorem nodup_map_distinctOn (group : α → γ) (l : List α) :
    ((distinctOn group l).map group).Nodup := by
  induction l with
  | nil => exact List.nodup_nil
  | cons a l ih =>
    rw [distinctOn, List.map_cons, List.nodup_cons]
    constructor
    · rw [List.mem_map]
      rintro ⟨b, hb, hab⟩
      simp only [List.mem_filter, decide_eq_true_eq] at hb
      exact hb.2 hab
    · exact ih.sublist (List.filter_sublist.map group)

theorem mem_distinctOn_iff (hinj : ∀ a ∈ l, ∀ b ∈ l, pos a = pos b → a = b)
    (hl : l.Pairwise fun a b => group b = group a → pos b ≤ pos a) {a : α} :
    a ∈ distinctOn group l ↔ IsLatest group pos l a := by
  induction l with
  | nil => simp [distinctOn, IsLatest]
  | cons x l ih =>
    obtain ⟨hx, hl'⟩ := List.pairwise_cons.mp hl
    have ih := ih (fun a ha b hb => hinj a (.tail x ha) b (.tail x hb)) hl'
    rw [distinctOn, List.mem_cons, List.mem_filter, decide_eq_true_eq, ih]
    constructor
    · rintro (rfl | ⟨⟨ha, hmax⟩, hne⟩)
      · refine ⟨List.mem_cons_self, fun b hb hgroup => ?_⟩
        rcases List.mem_cons.mp hb with rfl | hb
        · exact le_rfl
        · exact hx b hb hgroup
      · refine ⟨.tail x ha, fun b hb hgroup => ?_⟩
        rcases List.mem_cons.mp hb with rfl | hb
        · exact absurd hgroup.symm hne
        · exact hmax b hb hgroup
    · rintro ⟨ha, hmax⟩
      by_cases hax : a = x
      · exact .inl hax
      · have hal : a ∈ l := (List.mem_cons.mp ha).resolve_left hax
        refine .inr ⟨⟨hal, fun b hb => hmax b (.tail x hb)⟩, fun hgroup => hax ?_⟩
        -- in the group of `x` nothing later in the list can have a higher position
        exact hinj a ha x List.mem_cons_self
          (le_antisymm (hx a hal hgroup) (hmax x List.mem_cons_self hgroup.symm))

/-! ### The dictionary loop -/

/-- One turn of the loop: `a` replaces the element held for its group if its position is
higher. -/
def keepStep (group : α → γ) (pos : α → ι) (held : List α) (a : α) : List α :=
  match held.find? fun c => group c = group a with
  | none => held ++ [a]
  | some cur => if pos cur < pos a then held.map fun c => if group c = group a then a else c
    else held

/-- The whole loop. -/
def keepLatest (group : α → γ) (pos : α → ι) (l : List α) : List α :=
  l.foldl (keepStep group pos) []

theorem map_group_replace (held : List α) (a : α) :
    (held.map fun c => if group c = group a then a else c).map group = held.map group := by
  rw [List.map_map]
  refine List.map_congr_left fun c _ => ?_
  simp only [Function.comp_apply]
  split_ifs with h
  · exact h.symm
  · rfl

theorem nodup_map_keepStep {held : List α} (h : (held.map group).Nodup) (a : α) :
    ((keepStep group pos held a).map group).Nodup := by
  rw [keepStep]
  split
  · next hnone =>
    rw [List.map_append, List.map_singleton, List.nodup_append]
    refine ⟨h, List.nodup_singleton _, ?_⟩
    rintro g hg g' hg'
    obtain ⟨c, hc, rfl⟩ := List.mem_map.mp hg
    rw [List.mem_singleton.mp hg']
    simpa using List.find?_eq_none.mp hnone c hc
  · split_ifs
    · rwa [map_group_replace]
    · exact h

theorem nodup_map_keepLatest (group : α → γ) (pos : α → ι) (l : List α) :
    ((keepLatest group pos l).map group).Nodup := by
  induction l using List.reverseRecOn with
  | nil => exact List.nodup_nil
  | append_singleton l a ih =>
    rw [keepLatest, List.foldl_append]
    exact nodup_map_keepStep ih a

/-- A turn with the first element of its group. -/
theorem mem_keepStep_of_fresh {held : List α} {x a : α} (h : ∀ c ∈ held, group c ≠ group x) :
    a ∈ keepStep group pos held x ↔ a ∈ held ∨ a = x := by
  have hfind : held.find? (fun c => group c = group x) = none := by simpa using h
  simp only [keepStep, hfind, List.mem_append, List.mem_singleton]

/-- A turn with a rival of the element held for its group. -/
theorem mem_keepStep_of_rival {held : List α} {cur x a : α} (hnodup : (held.map group).Nodup)
    (hcur : cur ∈ held) (hgroup : group cur = group x) :
    a ∈ keepStep group pos held x ↔
      (a = x ∧ pos cur < pos x) ∨ (a ∈ held ∧ (group a = group x → ¬ pos cur < pos x)) := by
  have huniq : ∀ c ∈ held, group c = group x → c = cur := fun c hc hcx =>
    List.inj_on_of_nodup_map hnodup hc hcur (hcx.trans hgroup.symm)
  have hfind : held.find? (fun c => group c = group x) = some cur := by
    have hsome : (held.find? fun c => group c = group x).isSome :=
      List.find?_isSome.mpr ⟨cur, hcur, by simpa using hgroup⟩
    obtain ⟨c, hc⟩ := Option.isSome_iff_exists.mp hsome
    rw [hc, huniq c (List.mem_of_find?_eq_some hc) (by simpa using List.find?_some hc)]
  simp only [keepStep, hfind]
  split_ifs with hlt
  · simp only [List.mem_map, hlt, and_true, not_true_eq_false]
    constructor
    · rintro ⟨c, hc, rfl⟩
      split_ifs with hcx
      · exact .inl rfl
      · exact .inr ⟨hc, hcx⟩
    · rintro (rfl | ⟨ha, hax⟩)
      · exact ⟨cur, hcur, if_pos hgroup⟩
      · exact ⟨a, ha, if_neg hax⟩
  · simp [hlt]

/-- What one turn makes of the latest elements. -/
theorem mem_keepStep_iff {held : List α} {x : α} (hnodup : (held.map group).Nodup)
    (hinj : ∀ b ∈ l, pos b ≠ pos x) (hheld : ∀ a, a ∈ held ↔ IsLatest group pos l a)
    (htotal : ∀ b ∈ l, ∃ c ∈ held, group c = group b) {a : α} :
    a ∈ keepStep group pos held x ↔ IsLatest group pos (l ++ [x]) a := by
  rw [isLatest_concat_iff, ← hheld]
  by_cases hfresh : ∀ c ∈ held, group c ≠ group x
  · -- nothing in the list competes with `x`
    have hfresh' : ∀ b ∈ l, group b ≠ group x := by
      intro b hb hgroup
      obtain ⟨c, hc, hcb⟩ := htotal b hb
      exact hfresh c hc (hcb.trans hgroup)
    rw [mem_keepStep_of_fresh hfresh, or_comm]
    refine or_congr (iff_self_and.mpr ?_) (iff_self_and.mpr ?_)
    · exact fun _ b hb hgroup => absurd hgroup (hfresh' b hb)
    · exact fun ha hgroup => absurd hgroup.symm (hfresh a ha)
  · -- `cur` is the only element held for the group of `x`
    push Not at hfresh
    obtain ⟨cur, hcur, hgroup⟩ := hfresh
    obtain ⟨hcurl, hmax⟩ := (hheld cur).mp hcur
    have huniq : ∀ c ∈ held, group c = group x → c = cur := fun c hc hcx =>
      List.inj_on_of_nodup_map hnodup hc hcur (hcx.trans hgroup.symm)
    have hbest : pos cur < pos x ↔ ∀ b ∈ l, group b = group x → pos b ≤ pos x := by
      refine ⟨fun hlt b hb hb' => (hmax b hb (hb'.trans hgroup.symm)).trans hlt.le, fun h => ?_⟩
      exact lt_of_le_of_ne (h cur hcurl hgroup) (hinj cur hcurl)
    rw [mem_keepStep_of_rival hnodup hcur hgroup, hbest]
    refine or_congr_right (and_congr_right fun ha => ?_)
    rw [← hbest, not_lt, eq_comm]
    exact forall_congr' fun hxa => by rw [huniq a ha hxa.symm]

/-- Every group has its latest element. -/
theorem exists_isLatest (group : α → γ) (pos : α → ι) {b : α} (hb : b ∈ l) :
    ∃ c, IsLatest group pos l c ∧ group c = group b := by
  have hne : l.filter (fun a => group a = group b) ≠ [] :=
    List.ne_nil_of_mem (List.mem_filter.mpr ⟨hb, by simp⟩)
  obtain ⟨c, hc⟩ := Option.ne_none_iff_exists'.mp (List.argmax_eq_none (f := pos).not.mpr hne)
  have hmem := List.mem_filter.mp (List.argmax_mem hc)
  have hgroup : group c = group b := of_decide_eq_true hmem.2
  refine ⟨c, ⟨hmem.1, fun a ha hac => ?_⟩, hgroup⟩
  exact List.le_of_mem_argmax (List.mem_filter.mpr ⟨ha, decide_eq_true (hac.trans hgroup)⟩) hc

theorem mem_keepLatest_iff (hnodup : (l.map pos).Nodup) {a : α} :
    a ∈ keepLatest group pos l ↔ IsLatest group pos l a := by
  induction l using List.reverseRecOn generalizing a with
  | nil => simp [keepLatest, IsLatest]
  | append_singleton l x ih =>
    rw [List.map_append, List.map_singleton, List.nodup_append] at hnodup
    obtain ⟨hl, -, hx⟩ := hnodup
    have hheld : ∀ a, a ∈ keepLatest group pos l ↔ IsLatest group pos l a := fun a => ih hl
    have hinj : ∀ b ∈ l, pos b ≠ pos x := fun b hb =>
      hx (pos b) (List.mem_map_of_mem hb) (pos x) (List.mem_singleton.mpr rfl)
    have htotal : ∀ b ∈ l, ∃ c ∈ keepLatest group pos l, group c = group b := by
      intro b hb
      obtain ⟨c, hc, hgroup⟩ := exists_isLatest group pos hb
      exact ⟨c, (hheld c).mpr hc, hgroup⟩
    rw [keepLatest, List.foldl_append]
    exact mem_keepStep_iff (nodup_map_keepLatest group pos l) hinj hheld htotal

/-- **The loop keeps the latest elements.** -/
theorem keepLatest_perm_latests (hnodup : (l.map pos).Nodup) :
    (keepLatest group pos l).Perm (latests group pos l) :=
  (List.perm_ext_iff_of_nodup (nodup_map_keepLatest group pos l).of_map
    (nodup_latests hnodup.of_map)).mpr fun a => by
      rw [mem_keepLatest_iff hnodup, mem_latests]

/-- The groups that the loop ends with are those of the list. -/
theorem toFinset_map_keepLatest (hnodup : (l.map pos).Nodup) :
    ((keepLatest group pos l).map group).toFinset = (l.map group).toFinset := by
  ext k
  simp only [List.mem_toFinset, List.mem_map, mem_keepLatest_iff hnodup]
  constructor
  · rintro ⟨a, ha, rfl⟩
    exact ⟨a, ha.1, rfl⟩
  · rintro ⟨b, hb, rfl⟩
    exact exists_isLatest group pos hb

/-- It ends with one element for each group. -/
theorem length_keepLatest (hnodup : (l.map pos).Nodup) :
    (keepLatest group pos l).length = (l.map group).toFinset.card := by
  rw [← toFinset_map_keepLatest hnodup,
    List.toFinset_card_of_nodup (nodup_map_keepLatest group pos l), List.length_map]

/-- **A sum over what the loop ends with is one over the groups**, of the terms of their
latest elements. -/
theorem sum_map_keepLatest {M : Type*} [AddCommMonoid M] (hnodup : (l.map pos).Nodup)
    {f : α → M} {g : γ → M} (h : ∀ a, IsLatest group pos l a → f a = g (group a)) :
    ((keepLatest group pos l).map f).sum = ∑ k ∈ (l.map group).toFinset, g k := by
  rw [← toFinset_map_keepLatest hnodup, List.sum_toFinset g (nodup_map_keepLatest group pos l),
    List.map_map]
  exact congrArg List.sum (List.map_congr_left fun a ha => h a ((mem_keepLatest_iff hnodup).mp ha))

/-- The order by group, ascending in some order of the groups, then by descending position:
`ORDER BY group, pos DESC`. -/
def groupThenLatest {δ : Type*} (label : γ → δ) (group : α → γ) (pos : α → ι) (a : α) :
    δ ×ₗ ιᵒᵈ :=
  toLex (label (group a), OrderDual.toDual (pos a))

/-- **`DISTINCT ON` in this order keeps the latest elements.** -/
theorem distinctOn_perm_latests {δ : Type*} [LinearOrder δ] (label : γ → δ)
    (hnodup : (l.map pos).Nodup) :
    (distinctOn group (KeyOrder.sort (groupThenLatest label group pos) l)).Perm
      (latests group pos l) := by
  set s := KeyOrder.sort (groupThenLatest label group pos) l
  have hs : s.Perm l := KeyOrder.sort_perm _ l
  have hinj : ∀ a ∈ s, ∀ b ∈ s, pos a = pos b → a = b := fun a ha b hb hab =>
    List.inj_on_of_nodup_map hnodup (hs.mem_iff.mp ha) (hs.mem_iff.mp hb) hab
  have hdesc : s.Pairwise fun a b => group b = group a → pos b ≤ pos a := by
    refine (KeyOrder.pairwise_sort (groupThenLatest label group pos) l).imp
      fun {a b} hle hgroup => ?_
    rw [groupThenLatest, groupThenLatest, Prod.Lex.toLex_le_toLex, hgroup] at hle
    exact hle.elim (fun hlt => absurd hlt (lt_irrefl _)) fun h => h.2
  refine (List.perm_ext_iff_of_nodup (nodup_map_distinctOn group s).of_map
    (nodup_latests hnodup.of_map)).mpr fun a => ?_
  rw [mem_distinctOn_iff hinj hdesc, mem_latests]
  simp only [IsLatest, hs.mem_iff]

/-! ### Lists in order of position -/

/-- The last element of a group. -/
def lastOf (group : α → γ) (g : γ) (l : List α) : Option α :=
  (l.filter fun a => group a = g).getLast?

theorem group_of_lastOf {g : γ} {a : α} (h : lastOf group g l = some a) : group a = g :=
  of_decide_eq_true (List.mem_filter.mp (List.mem_of_getLast? h)).2

theorem lastOf_eq_none_iff {g : γ} : lastOf group g l = none ↔ ∀ a ∈ l, group a ≠ g := by
  simp [lastOf]

theorem lastOf_concat (group : α → γ) (g : γ) (l : List α) (x : α) :
    lastOf group g (l ++ [x]) = if group x = g then some x else lastOf group g l := by
  rw [lastOf, List.filter_append, List.filter_singleton]
  by_cases h : group x = g
  · simp [h]
  · simp [h, lastOf]

/-- **In the order of positions the latest element of a group is the last.** -/
theorem isLatest_iff_lastOf (hsorted : KeyOrder.Sorted pos l) {a : α} :
    IsLatest group pos l a ↔ lastOf group (group a) l = some a := by
  induction l using List.reverseRecOn with
  | nil => simp [IsLatest, lastOf]
  | append_singleton l x ih =>
    obtain ⟨hl, -, hx⟩ := List.pairwise_append.mp hsorted
    have hx : ∀ b ∈ l, pos b < pos x := fun b hb => hx b hb x (List.mem_singleton_self x)
    rw [isLatest_concat_iff, lastOf_concat, ih hl]
    by_cases hgroup : group x = group a
    · rw [if_pos hgroup, Option.some.injEq]
      constructor
      · rintro (⟨rfl, -⟩ | ⟨hlast, hle⟩)
        · rfl
        · -- an element before `x` does not have a higher position
          exact absurd (hle hgroup) (not_le.mpr (hx a ((ih hl).mpr hlast).1))
      · rintro rfl
        exact .inl ⟨rfl, fun b hb _ => (hx b hb).le⟩
    · rw [if_neg hgroup]
      constructor
      · rintro (⟨rfl, -⟩ | ⟨hlast, -⟩)
        · exact absurd rfl hgroup
        · exact hlast
      · exact fun hlast => .inr ⟨hlast, fun h => absurd h hgroup⟩

/-- The latest elements are the last ones of the groups that there are. -/
theorem latests_perm_filterMap (hsorted : KeyOrder.Sorted pos l) {groups : List γ}
    (hgroups : groups.Nodup) (hall : ∀ a ∈ l, group a ∈ groups) :
    (latests group pos l).Perm (groups.filterMap fun g => lastOf group g l) := by
  have hnodup : l.Nodup := hsorted.imp fun h heq => absurd (heq ▸ h) (lt_irrefl _)
  refine (List.perm_ext_iff_of_nodup (nodup_latests hnodup) ?_).mpr fun a => ?_
  · refine List.Nodup.filterMap (fun g g' a ha ha' => ?_) hgroups
    rw [← group_of_lastOf ha, ← group_of_lastOf ha']
  · rw [mem_latests, isLatest_iff_lastOf hsorted, List.mem_filterMap]
    constructor
    · intro hlast
      exact ⟨group a, hall a ((isLatest_iff_lastOf hsorted).mpr hlast).1, hlast⟩
    · rintro ⟨g, -, hlast⟩
      rwa [group_of_lastOf hlast]

/-- **What is read off the latest elements depends on the last ones of the groups alone.** -/
theorem map_latests_perm {δ : Type*} {f : α → δ} (hl : KeyOrder.Sorted pos l)
    (hm : KeyOrder.Sorted pos m)
    (h : ∀ g, (lastOf group g l).map f = (lastOf group g m).map f) :
    ((latests group pos l).map f).Perm ((latests group pos m).map f) := by
  have hgroups : (l.map group).dedup.Perm (m.map group).dedup := by
    refine (List.perm_ext_iff_of_nodup (List.nodup_dedup _) (List.nodup_dedup _)).mpr fun g => ?_
    have hnone : lastOf group g l = none ↔ lastOf group g m = none := by
      rw [← Option.map_eq_none_iff (f := f), h, Option.map_eq_none_iff]
    rw [lastOf_eq_none_iff, lastOf_eq_none_iff] at hnone
    simpa using hnone.not
  have hmap : ∀ l' : List α, ((l'.map group).dedup.filterMap fun g => lastOf group g l').map f =
      (l'.map group).dedup.filterMap fun g => (lastOf group g l').map f := fun l' =>
    List.map_filterMap
  have hself : ∀ l' : List α, ∀ a ∈ l', group a ∈ (l'.map group).dedup := fun l' a ha =>
    List.mem_dedup.mpr (List.mem_map_of_mem ha)
  refine ((latests_perm_filterMap hl (List.nodup_dedup _) (hself l)).map f).trans ?_
  refine .trans ?_ ((latests_perm_filterMap hm (List.nodup_dedup _) (hself m)).map f).symm
  rw [hmap, hmap, funext h]
  exact hgroups.filterMap _

end LatestPer
