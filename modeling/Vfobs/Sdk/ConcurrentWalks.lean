import Vfobs.Sdk.ConcurrentReads

/-!
# What a walk among concurrent writers collects

`concurrent_walk_exact_iff` says which runs let a walk return all that is committed. Here is what it
returns in any of them, however the commits come: `walk_collects_iff`. It has an event if and only
if the walk was still on at the commit and its cursor not beyond the id, and so it has all that was
committed before it began; and nothing comes twice, or out of order.
-/

namespace Vfobs

open StepSystem

namespace Concurrent

variable {taskId : String} {pageLimit : ℤ} {s s' : Concurrent} {a : Action} {se : StoredEvent}

/-- A turn of the walk takes a page of what is committed, and follows its cursor or returns. -/
theorem Sound.fetch_cases (h : Sound s) {w : Walk}
    (hw : s.walk.fetch s.table taskId pageLimit = some w) :
    let page := Keyset.page StoredEvent.id s.walk.fromId (pageSize pageLimit)
      (s.committedOf taskId)
    w.out = s.walk.out ++ page.map StoredEvent.view ∧
      (Keyset.nextCursor StoredEvent.id (pageSize pageLimit) page = none ∧ w.returned = true ∨
        ∃ c, Keyset.nextCursor StoredEvent.id (pageSize pageLimit) page = some c ∧
          w.fromId = some c ∧ w.returned = s.walk.returned) := by
  intro page
  rw [h.fetch_eq] at hw
  dsimp only at hw
  cases hnext : Keyset.nextCursor StoredEvent.id (pageSize pageLimit) page with
  | none =>
    rw [hnext] at hw
    obtain rfl := Option.some.inj hw
    exact ⟨rfl, .inl ⟨rfl, rfl⟩⟩
  | some c =>
    rw [hnext] at hw
    obtain rfl := Option.some.inj hw
    exact ⟨rfl, .inr ⟨c, rfl, rfl, rfl⟩⟩

/-! ### In order, and once -/

/-- The walk has collected events of its task in order of id, all of them before the cursor. -/
structure Ascending (taskId : String) (s : Concurrent) : Prop extends Sound s where
  mine : ∀ v ∈ s.walk.out, ∃ se ∈ s.committedOf taskId, v = se.view
  sorted : (s.walk.out.map StoredEventView.id).Pairwise (· < ·)
  before : s.walk.returned = false → ∀ v ∈ s.walk.out, ∃ c ∈ s.walk.fromId, v.id < c

theorem ascending_start (partitions : List Partition) : Ascending taskId { partitions } :=
  ⟨sound_start partitions, by simp, by simp, by simp⟩

theorem Ascending.step (h : Ascending taskId s)
    (hstep : Concurrent.step taskId pageLimit s a = some s') : Ascending taskId s' := by
  have hsound' := h.toSound.step hstep
  obtain ⟨event, rfl, rfl | ⟨n, hn, rfl⟩⟩ | ⟨se, hse, rfl, rfl⟩ | ⟨id, rfl, rfl⟩ |
    ⟨rfl, hrunning, w, hw, rfl⟩ := step_cases hstep
  · exact ⟨hsound', h.mine, h.sorted, h.before⟩
  · exact ⟨hsound', h.mine, h.sorted, h.before⟩
  · refine ⟨hsound', fun v hv => ?_, h.sorted, h.before⟩
    obtain ⟨se', hse', hview⟩ := h.mine v hv
    obtain ⟨hmem, htask⟩ := mem_committedOf.mp hse'
    exact ⟨se', mem_committedOf.mpr ⟨List.mem_append_left _ hmem, htask⟩, hview⟩
  · exact ⟨hsound', h.mine, h.sorted, h.before⟩
  · obtain ⟨hout, hnext⟩ := h.fetch_cases hw
    have hcommitted : KeyOrder.Sorted StoredEvent.id (s.committedOf taskId) :=
      h.sorted_committedOf
    have hsub := (List.take_sublist (pageSize pageLimit)
      (Keyset.rest StoredEvent.id s.walk.fromId (s.committedOf taskId))).trans
        List.filter_sublist
    refine ⟨hsound', fun v hv => ?_, ?_, fun hon v hv => ?_⟩
    · rw [hout, List.mem_append] at hv
      rcases hv with hv | hv
      · exact h.mine v hv
      · obtain ⟨se, hse, rfl⟩ := List.mem_map.mp hv
        exact ⟨se, hsub.subset hse, rfl⟩
    · rw [hout, List.map_append, List.map_map, List.pairwise_append]
      refine ⟨h.sorted, List.pairwise_map.mpr (hcommitted.sublist hsub), fun i hi j hj => ?_⟩
      -- a page starts at the cursor
      obtain ⟨v, hv, rfl⟩ := List.mem_map.mp hi
      obtain ⟨se, hse, rfl⟩ := List.mem_map.mp hj
      obtain ⟨c, hc, hlt⟩ := h.before hrunning v hv
      have hreach := (List.mem_filter.mp (List.mem_of_mem_take hse)).2
      rw [decide_eq_true_eq, Option.mem_def.mp hc] at hreach
      exact hlt.trans_le hreach
    · obtain ⟨-, hreturned⟩ | ⟨c, hc, hfromId, -⟩ := hnext
      · exact absurd (hon.symm.trans hreturned) Bool.false_ne_true
      · refine ⟨c, hfromId, ?_⟩
        rw [hout, List.mem_append] at hv
        rcases hv with hv | hv
        · obtain ⟨c₀, hc₀, hlt⟩ := h.before hrunning v hv
          obtain ⟨se, -, hreach, rfl⟩ := Keyset.nextCursor_mem hc
          rw [Option.mem_def.mp hc₀] at hreach
          exact hlt.trans_le (hreach.trans (Int.lt_succ _).le)
        · obtain ⟨se, hse, rfl⟩ := List.mem_map.mp hv
          exact Keyset.lt_nextCursor hcommitted hc hse

/-! ### What is collected -/

/-- A committed event of the task that the walk has, or comes to. -/
structure Collects (taskId : String) (se : StoredEvent) (s : Concurrent) : Prop
    extends Sound s where
  mem : se ∈ s.committedOf taskId
  collected : se.view ∈ s.walk.out ∨
    s.walk.returned = false ∧ Keyset.Reaches StoredEvent.id s.walk.fromId se

/-- **What is not passed by is collected.** -/
theorem Collects.step (h : Collects taskId se s)
    (hstep : Concurrent.step taskId pageLimit s a = some s') : Collects taskId se s' := by
  have hsound' := h.toSound.step hstep
  obtain ⟨event, rfl, rfl | ⟨n, hn, rfl⟩⟩ | ⟨se', hse', rfl, rfl⟩ | ⟨id, rfl, rfl⟩ |
    ⟨rfl, hrunning, w, hw, rfl⟩ := step_cases hstep
  · exact ⟨hsound', h.mem, h.collected⟩
  · exact ⟨hsound', h.mem, h.collected⟩
  · obtain ⟨hmem, htask⟩ := mem_committedOf.mp h.mem
    exact ⟨hsound', mem_committedOf.mpr ⟨List.mem_append_left _ hmem, htask⟩, h.collected⟩
  · exact ⟨hsound', h.mem, h.collected⟩
  · obtain ⟨hout, hnext⟩ := h.fetch_cases hw
    refine ⟨hsound', h.mem, ?_⟩
    rw [hout]
    obtain hcollected | ⟨-, hreach⟩ := h.collected
    · exact .inl (List.mem_append_left _ hcollected)
    obtain hpage | ⟨c, hc, hle⟩ := Keyset.mem_page_or_reaches h.sorted_committedOf
      (one_le_pageSize pageLimit) h.mem hreach
    · exact .inl (List.mem_append_right _ (List.mem_map_of_mem hpage))
    · obtain ⟨hnone, -⟩ | ⟨c', hc', hfromId, hreturned⟩ := hnext
      · exact absurd (hc.symm.trans hnone) (by simp)
      · obtain rfl := Option.some.inj (hc.symm.trans hc')
        refine .inr ⟨hreturned.trans hrunning, ?_⟩
        rw [hfromId]
        exact hle

/-! ### Runs -/

/-- What the walk holds has other ids than the rows that are not committed. -/
theorem Sound.absent (h : Sound s) (hse : se ∈ s.pending) : ∀ v ∈ s.walk.out, v.id ≠ se.id := by
  intro v hv hid
  obtain ⟨old, hold, rfl⟩ := h.out v hv
  exact (List.nodup_append.mp (List.map_append ▸ h.nodup)).2.2 _ (List.mem_map_of_mem hold) _
    (List.mem_map_of_mem hse) hid

/-- A walk that has returned stays as it is. -/
theorem walk_of_returned (hstep : step taskId pageLimit s a = some s')
    (hreturned : s.walk.returned = true) : s'.walk = s.walk := by
  obtain ⟨event, rfl, rfl | ⟨n, hn, rfl⟩⟩ | ⟨se, hse, rfl, rfl⟩ | ⟨id, rfl, rfl⟩ |
    ⟨rfl, hrunning, w, hw, rfl⟩ := step_cases hstep
  · rfl
  · rfl
  · rfl
  · rfl
  · exact absurd (hrunning.symm.trans hreturned) Bool.false_ne_true

/-- A commit that is not before the cursor, while the walk is on. -/
theorem Sound.collects (h : Sound s) (hse : se ∈ s.pending)
    (htask : se.event.taskId = some taskId) (hrunning : s.walk.returned = false)
    (hreach : ∀ c ∈ s.walk.fromId, c ≤ se.id)
    (hstep : Concurrent.step taskId pageLimit s (.commit se.id) = some s') :
    Collects taskId se s' := by
  have hsound' := h.step hstep
  obtain ⟨se', hse', hid, rfl⟩ := step_commit hstep
  -- the ids of the open rows tell them apart
  have hnodup := (List.nodup_append.mp (List.map_append ▸ h.nodup)).2.1
  obtain rfl := List.inj_on_of_nodup_map hnodup hse' hse hid
  refine ⟨hsound', mem_committedOf.mpr ⟨by simp, htask⟩, .inr ⟨hrunning, ?_⟩⟩
  change Keyset.Reaches StoredEvent.id s.walk.fromId se'
  cases hc : s.walk.fromId with
  | none => trivial
  | some c => exact hreach c hc

variable {partitions : List Partition} {before after : List Action} {t u : Concurrent}

/-- **What a walk returns.** In every run, a walk that returns has an event of its task if and only
if, at the commit of the event, it was still on and its cursor was not beyond the id; and it has
committed events of its task only, in strictly increasing order of id. -/
theorem walk_collects_iff
    (hbefore : run (Concurrent.step taskId pageLimit) { partitions } before = some t)
    (hse : se ∈ t.pending) (htask : se.event.taskId = some taskId)
    (hcommit : Concurrent.step taskId pageLimit t (.commit se.id) = some u)
    (hafter : run (Concurrent.step taskId pageLimit) u after = some s)
    (hreturned : s.walk.returned = true) :
    (se.view ∈ s.walk.out ↔ t.walk.returned = false ∧ ∀ c ∈ t.walk.fromId, c ≤ se.id) ∧
      (s.walk.out.map StoredEventView.id).Pairwise (· < ·) ∧
      ∀ v ∈ s.walk.out, ∃ se' ∈ s.committedOf taskId, v = se'.view := by
  have hsound : Sound t := run_invariant (fun _ _ _ h hs => h.step hs) (sound_start _) hbefore
  refine ⟨⟨fun hin => ?_, fun ⟨hrunning, hreach⟩ => ?_⟩, ?_⟩
  · by_contra hnot
    have habsent : ∀ v ∈ s.walk.out, v.id ≠ se.id := by
      by_cases hover : t.walk.returned = true
      · -- the walk is over, and stays without the event
        have hkept : s.walk = t.walk := by
          have hu := walk_of_returned hcommit hover
          refine run_invariant (I := fun r => r.walk = t.walk) ?_ hu hafter
          intro r a r' hr hs
          exact (walk_of_returned hs (hr ▸ hover)).trans hr
        rw [hkept]
        exact hsound.absent hse
      · -- the cursor is beyond the id, and does not go back
        simp only [hover, true_and, not_forall, not_le] at hnot
        obtain ⟨c, hc, hlt⟩ := hnot
        exact (run_invariant (fun _ _ _ h hs => h.step hs)
          (hsound.missed hse htask hc hlt hcommit) hafter : Missed taskId se s).absent
    exact habsent _ hin rfl
  · have hcollects : Collects taskId se s :=
      run_invariant (fun _ _ _ h hs => h.step hs)
        (hsound.collects hse htask hrunning hreach hcommit) hafter
    obtain hcollected | ⟨hon, -⟩ := hcollects.collected
    · exact hcollected
    · exact absurd (hon.symm.trans hreturned) Bool.false_ne_true
  · have hstart : Ascending taskId u :=
      (run_invariant (fun _ _ _ h hs => h.step hs) (ascending_start _) hbefore :
        Ascending taskId t).step hcommit
    have hascending : Ascending taskId s :=
      run_invariant (fun _ _ _ h hs => h.step hs) hstart hafter
    exact ⟨hascending.sorted, hascending.mine⟩

/-- Of two events, the one with the smaller id is committed when the cursor is beyond it. -/
theorem walk_collects_iff_late :
    ∃ t s : Concurrent,
      ((⟨1, claimed⟩ : StoredEvent).view ∈ s.walk.out ↔
          t.walk.returned = false ∧ ∀ c ∈ t.walk.fromId, c ≤ (1 : ℤ)) ∧
        (s.walk.out.map StoredEventView.id).Pairwise (· < ·) ∧
        ∀ v ∈ s.walk.out, ∃ se' ∈ s.committedOf "t", v = se'.view := by
  have hbefore : ∃ t, run (Concurrent.step "t" 1) { partitions := [january] }
      [.insert claimed, .insert claimed, .commit 2, .fetch] = some t ∧
      t.pending = [⟨1, claimed⟩] ∧
      ∃ u, Concurrent.step "t" 1 t (.commit 1) = some u ∧
        ∃ s, run (Concurrent.step "t" 1) u [.fetch] = some s ∧ s.walk.returned = true :=
    ⟨_, rfl, rfl, _, rfl, _, rfl, rfl⟩
  obtain ⟨t, ht, hpending, u, hu, s, hs, hreturned⟩ := hbefore
  have hse : (⟨1, claimed⟩ : StoredEvent) ∈ t.pending := by
    rw [hpending]
    exact List.mem_singleton_self _
  exact ⟨t, s, walk_collects_iff ht hse rfl hu hs hreturned⟩

end Concurrent

end Vfobs
