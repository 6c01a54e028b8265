import Vfobs.Foundations.Run
import Vfobs.Repositories.Postgres
import Vfobs.Sdk.ReadClient

/-!
# A walk among concurrent writers

Each `PostgresEventRepository.store` is a transaction of its own: its `INSERT` takes the next
value of the sequence, its row is there for others from its commit on, and transactions may
commit in any order, or never. `step` interleaves them with the fetches of one walk, each of
which sees the rows committed at that moment.

The cursor of the walk goes by ids, and the ids are not in the order of the commits. A commit
below the cursor is one that the walk does not come back for; `concurrent_walk_exact_iff`:
a walk that ends has returned exactly the events of its task that were committed at the last
fetch if and only if there was none of the task.
-/

namespace Vfobs

open StepSystem

/-- The table, the transactions and the walk. -/
structure Concurrent where
  partitions : List Partition
  nextval : ℤ := 1
  /-- The rows that are committed. -/
  committed : List StoredEvent := []
  /-- The rows of the transactions that are open. -/
  pending : List StoredEvent := []
  walk : Walk := {}

namespace Concurrent

/-- What happens next. -/
inductive Action
  /-- The `INSERT` of a `store`. -/
  | insert (event : Event)
  /-- The commit of the transaction that has inserted a row. -/
  | commit (id : ℤ)
  /-- The end of such a transaction without a commit. -/
  | rollback (id : ℤ)
  /-- A turn of the loop of the walk. -/
  | fetch

/-- The table as others see it. -/
def table (s : Concurrent) : PostgresEventRepository where
  partitions := s.partitions
  rows := s.committed.map storedToRow
  nextval := s.nextval

/-- The row of an open transaction. -/
def openRow (s : Concurrent) (id : ℤ) : Option StoredEvent := s.pending.find? fun se => se.id = id

/-- The transaction that has inserted a row is over. -/
def close (s : Concurrent) (id : ℤ) : Concurrent :=
  { s with pending := s.pending.filter fun se => se.id ≠ id }

variable (taskId : String) (pageLimit : ℤ)

/-- One step of one of the parties; `none` where it cannot be taken. -/
def step (s : Concurrent) : Action → Option Concurrent
  | .insert event =>
    match s.table.store event with
    | (.ok id, db) => some { s with
        nextval := db.nextval
        pending := s.pending ++ [⟨id, event⟩] }
    -- a failed `INSERT` leaves a gap in the sequence at most
    | (.error _, db) => some { s with nextval := db.nextval }
  | .commit id => (s.openRow id).map fun se => { s.close id with committed := s.committed ++ [se] }
  | .rollback id => (s.openRow id).map fun _ => s.close id
  | .fetch =>
    if s.walk.returned then none
    else (s.walk.fetch s.table taskId pageLimit).map fun walk => { s with walk }

/-- The events of the task that are committed, in order of id. -/
def committedOf (s : Concurrent) : List StoredEvent :=
  (KeyOrder.sort StoredEvent.id s.committed).filter fun se => se.event.taskId = some taskId

/-! ### What holds in every state -/

/-- Ids are given once, and what the walk has collected is committed. -/
structure Sound (s : Concurrent) : Prop where
  nodup : ((s.committed ++ s.pending).map StoredEvent.id).Nodup
  fresh : ∀ se ∈ s.committed ++ s.pending, se.id < s.nextval
  out : ∀ v ∈ s.walk.out, ∃ se ∈ s.committed, v = se.view

variable {taskId pageLimit} {s s' : Concurrent} {a : Action} {se : StoredEvent}

theorem Sound.holds (h : Sound s) : s.table.Holds s.committed :=
  ⟨.refl _, (List.nodup_append.mp (List.map_append ▸ h.nodup)).1⟩

/-- The log of the committed rows. -/
abbrev Sound.log (h : Sound s) : EventLog := h.holds.log

theorem Sound.mem_log (h : Sound s) : se ∈ h.log.entries ↔ se ∈ s.committed :=
  EventLog.mem_ofList

/-- A turn of the walk, as a step of keyset pagination over the committed events. -/
theorem Sound.fetch_eq (h : Sound s) :
    s.walk.fetch s.table taskId pageLimit =
      let page := Keyset.page StoredEvent.id s.walk.fromId (pageSize pageLimit)
        (s.committedOf taskId)
      match Keyset.nextCursor StoredEvent.id (pageSize pageLimit) page with
      | none => some { s.walk with
          out := s.walk.out ++ page.map StoredEvent.view
          returned := true }
      | some n => some { s.walk with
          out := s.walk.out ++ page.map StoredEvent.view
          fromId := some n } :=
  Walk.fetch_eq h.holds.represents taskId pageLimit s.walk

theorem mem_committedOf :
    se ∈ s.committedOf taskId ↔ se ∈ s.committed ∧ se.event.taskId = some taskId := by
  simp [committedOf]

theorem Sound.sorted_committedOf (h : Sound s) :
    KeyOrder.Sorted StoredEvent.id (s.committedOf taskId) :=
  h.holds.log.sorted_select fun e => e.taskId = some taskId

/-- A commit makes the row of its transaction visible. -/
theorem step_commit {id : ℤ} (h : step taskId pageLimit s (.commit id) = some s') :
    ∃ se ∈ s.pending, se.id = id ∧ s' = { s.close id with committed := s.committed ++ [se] } := by
  obtain ⟨se, hse, rfl⟩ := Option.map_eq_some_iff.mp h
  exact ⟨se, List.mem_of_find?_eq_some hse, by simpa using List.find?_some hse, rfl⟩

/-- A turn of the walk changes nothing but the walk. -/
theorem step_fetch (h : step taskId pageLimit s .fetch = some s') :
    s.walk.returned = false ∧
      ∃ w, s.walk.fetch s.table taskId pageLimit = some w ∧ s' = { s with walk := w } := by
  simp only [step] at h
  split_ifs at h with hreturned
  obtain ⟨w, hw, rfl⟩ := Option.map_eq_some_iff.mp h
  exact ⟨by simpa using hreturned, w, hw, rfl⟩

/-- **What one step can do.** -/
theorem step_cases (h : step taskId pageLimit s a = some s') :
    (∃ event, a = .insert event ∧
      (s' = { s with
          nextval := s.nextval + 1
          pending := s.pending ++ [⟨s.nextval, event⟩] } ∨
        ∃ n, s.nextval ≤ n ∧ s' = { s with nextval := n })) ∨
    (∃ se ∈ s.pending, a = .commit se.id ∧
      s' = { s.close se.id with committed := s.committed ++ [se] }) ∨
    (∃ id, a = .rollback id ∧ s' = s.close id) ∨
    (a = .fetch ∧ s.walk.returned = false ∧
      ∃ w, s.walk.fetch s.table taskId pageLimit = some w ∧ s' = { s with walk := w }) := by
  cases a with
  | insert event =>
    refine .inl ⟨event, rfl, ?_⟩
    simp only [step, PostgresEventRepository.store] at h
    split_ifs at h <;> obtain rfl := Option.some.inj h
    · exact .inl rfl
    · exact .inr ⟨s.nextval + 1, (Int.lt_succ _).le, rfl⟩
    · exact .inr ⟨s.nextval, le_rfl, rfl⟩
  | commit id =>
    obtain ⟨se, hse, rfl, hs'⟩ := step_commit h
    exact .inr (.inl ⟨se, hse, rfl, hs'⟩)
  | rollback id =>
    obtain ⟨se, -, rfl⟩ := Option.map_eq_some_iff.mp h
    exact .inr (.inr (.inl ⟨id, rfl, rfl⟩))
  | fetch => exact .inr (.inr (.inr ⟨rfl, step_fetch h⟩))

/-- **What a turn of the walk does**: it adds views of committed events of the task that are
not before the cursor, and the cursor does not go back. -/
theorem Sound.fetch_spec (h : Sound s) {w : Walk}
    (hw : s.walk.fetch s.table taskId pageLimit = some w) :
    ∃ page : List StoredEvent, (∀ se ∈ page, se ∈ s.committedOf taskId ∧
        Keyset.Reaches StoredEvent.id s.walk.fromId se) ∧
      w.out = s.walk.out ++ page.map StoredEvent.view ∧
      ∀ c ∈ s.walk.fromId, ∃ c' ∈ w.fromId, c ≤ c' := by
  rw [h.fetch_eq] at hw
  set page := Keyset.page StoredEvent.id s.walk.fromId (pageSize pageLimit)
    (s.committedOf taskId) with hpage
  have hmem : ∀ se ∈ page, se ∈ s.committedOf taskId ∧
      Keyset.Reaches StoredEvent.id s.walk.fromId se := fun se hse => by
    simpa [Keyset.rest] using List.mem_of_mem_take hse
  cases hnext : Keyset.nextCursor StoredEvent.id (pageSize pageLimit) page with
  | none =>
    simp only [hnext, Option.some.injEq] at hw
    subst hw
    exact ⟨page, hmem, rfl, fun c hc => ⟨c, hc, le_rfl⟩⟩
  | some c' =>
    simp only [hnext, Option.some.injEq] at hw
    subst hw
    refine ⟨page, hmem, rfl, fun c hc => ⟨c', rfl, ?_⟩⟩
    obtain ⟨se, -, hreach, rfl⟩ := Keyset.nextCursor_mem hnext
    rw [Option.mem_def.mp hc] at hreach
    exact (show c ≤ se.id from hreach).trans (Int.lt_succ _).le

theorem sound_start (partitions : List Partition) : Sound { partitions } :=
  ⟨by simp, by simp, by simp⟩

/-- A transaction that ends takes its row from the open ones. -/
theorem Sound.perm_close (h : Sound s) (hse : se ∈ s.pending) :
    s.pending.Perm (se :: (s.close se.id).pending) :=
  KeyOrder.perm_cons_filter_ne (List.nodup_append.mp (List.map_append ▸ h.nodup)).2.1 hse

/-- **Ids are never given twice**, whatever happens. -/
theorem Sound.step (h : Sound s) (hstep : step taskId pageLimit s a = some s') : Sound s' := by
  obtain ⟨event, rfl, rfl | ⟨n, hn, rfl⟩⟩ | ⟨se, hse, rfl, rfl⟩ | ⟨id, rfl, rfl⟩ |
    ⟨rfl, -, w, hw, rfl⟩ := step_cases hstep
  · refine ⟨?_, fun se hse => ?_, h.out⟩
    · rw [← List.append_assoc, List.map_append, List.map_singleton, List.nodup_append]
      refine ⟨h.nodup, List.nodup_singleton _, fun i hi j hj => ?_⟩
      obtain ⟨se, hse, rfl⟩ := List.mem_map.mp hi
      rw [List.mem_singleton.mp hj]
      exact (h.fresh se hse).ne
    · rw [← List.append_assoc] at hse
      rcases List.mem_append.mp hse with hold | hnew
      · exact (h.fresh se hold).trans (Int.lt_succ _)
      · rw [List.mem_singleton.mp hnew]
        exact Int.lt_succ _
  · exact ⟨h.nodup, fun se hse => (h.fresh se hse).trans_le hn, h.out⟩
  · -- the row moves from the open transactions to the committed ones
    have hperm : ((s.committed ++ [se]) ++ (s.close se.id).pending).Perm
        (s.committed ++ s.pending) := by
      rw [List.append_assoc]
      exact ((h.perm_close hse).append_left s.committed).symm
    refine ⟨((hperm.map _).nodup_iff).mpr h.nodup,
      fun se' hse' => h.fresh se' (hperm.mem_iff.mp hse'), fun v hv => ?_⟩
    obtain ⟨se', hse', hview⟩ := h.out v hv
    exact ⟨se', List.mem_append_left _ hse', hview⟩
  · have hsub : (s.committed ++ (s.close id).pending).Sublist (s.committed ++ s.pending) :=
      List.filter_sublist.append_left _
    exact ⟨h.nodup.sublist (hsub.map _), fun se hse => h.fresh se (hsub.subset hse), h.out⟩
  · obtain ⟨page, hpage, hout, -⟩ := h.fetch_spec hw
    refine ⟨h.nodup, h.fresh, fun v hv => ?_⟩
    rw [hout, List.mem_append, List.mem_map] at hv
    rcases hv with hv | ⟨se, hse, rfl⟩
    · exact h.out v hv
    · exact ⟨se, (mem_committedOf.mp (hpage se hse).1).1, rfl⟩

/-! ### Where every commit is at or after the cursor -/

/-- A step that commits no row of the task before the cursor of the walk. -/
def InOrder (taskId : String) (s : Concurrent) (a : Action) : Prop :=
  ∀ se ∈ s.pending, a = .commit se.id → se.event.taskId = some taskId →
    ∀ c ∈ s.walk.fromId, c ≤ se.id

/-- While the walk is on, it is in step with the committed events of its task. -/
structure Tracking (taskId : String) (s : Concurrent) : Prop extends Sound s where
  walking : s.walk.returned = false → WalkInvariant taskId toSound.log s.walk

theorem tracking_start (taskId : String) (partitions : List Partition) :
    Tracking taskId { partitions } :=
  ⟨sound_start partitions, fun _ => walkInvariant_start _⟩

/-- **A step in order keeps the walk in step.** -/
theorem Tracking.step (h : Tracking taskId s) (hin : InOrder taskId s a)
    (hstep : step taskId pageLimit s a = some s') : Tracking taskId s' := by
  refine ⟨h.toSound.step hstep, fun hon => ?_⟩
  have hsound' := h.toSound.step hstep
  obtain ⟨event, rfl, rfl | ⟨n, hn, rfl⟩⟩ | ⟨se, hse, rfl, rfl⟩ | ⟨id, rfl, rfl⟩ |
    ⟨rfl, hrunning, w, hw, rfl⟩ := step_cases hstep
  · exact h.walking hon
  · exact h.walking hon
  · refine (h.walking hon).grow ?_ ?_
    · intro se' hse'
      rw [Sound.mem_log] at hse' ⊢
      exact List.mem_append_left _ hse'
    · intro se' hse'
      rw [EventLog.mem_select, Sound.mem_log, List.mem_append, List.mem_singleton] at hse'
      obtain ⟨hold | rfl, htask⟩ := hse'
      · exact .inl ((EventLog.mem_select _ _).mpr ⟨h.mem_log.mpr hold, htask⟩)
      · right
        cases hc : s.walk.fromId with
        | none => trivial
        | some c => exact hin se' hse rfl htask c hc
  · exact h.walking hon
  · obtain ⟨w', hw', ⟨hreturned, -⟩ | ⟨hinv, -⟩⟩ :=
      (h.walking hrunning).fetch pageLimit h.holds.represents
    · rw [hw, Option.some.injEq] at hw'
      exact absurd (hw' ▸ hreturned) (by simpa using hon)
    · rw [hw, Option.some.injEq] at hw'
      exact hw' ▸ hinv

/-- The turn that ends the walk completes it. -/
theorem Tracking.fetch (h : Tracking taskId s)
    (hstep : Concurrent.step taskId pageLimit s .fetch = some s')
    (hreturned : s'.walk.returned = true) :
    s'.walk.out = (s'.committedOf taskId).map StoredEvent.view := by
  obtain ⟨hrunning, w, hw, rfl⟩ := step_fetch hstep
  obtain ⟨w', hw', ⟨-, hout⟩ | ⟨hinv, -⟩⟩ :=
    (h.walking hrunning).fetch pageLimit h.holds.represents
  · rw [hw, Option.some.injEq] at hw'
    exact hw' ▸ hout
  · rw [hw, Option.some.injEq] at hw'
    exact absurd (hw' ▸ hinv).running (by simpa using hreturned)

/-! ### A commit before the cursor -/

/-- A committed event of the task that the walk has gone past. -/
structure Missed (taskId : String) (se : StoredEvent) (s : Concurrent) : Prop
    extends Sound s where
  mem : se ∈ s.committedOf taskId
  passed : ∃ c ∈ s.walk.fromId, se.id < c
  absent : ∀ v ∈ s.walk.out, v.id ≠ se.id

/-- A commit before the cursor is missed. -/
theorem Sound.missed (h : Sound s) (hse : se ∈ s.pending) (htask : se.event.taskId = some taskId)
    {c : ℤ} (hc : c ∈ s.walk.fromId) (hlt : se.id < c)
    (hstep : Concurrent.step taskId pageLimit s (.commit se.id) = some s') :
    Missed taskId se s' := by
  have hsound' := h.step hstep
  have hnodup := List.nodup_append.mp (List.map_append ▸ h.nodup)
  obtain ⟨se', hse', hid, rfl⟩ := step_commit hstep
  -- the ids of the open rows tell them apart
  obtain rfl := List.inj_on_of_nodup_map hnodup.2.1 hse' hse hid
  refine ⟨hsound', mem_committedOf.mpr ⟨by simp, htask⟩, ⟨c, hc, hlt⟩, fun v hv hvid => ?_⟩
  -- what the walk holds was committed before, under other ids
  obtain ⟨old, hold, rfl⟩ := h.out v hv
  exact hnodup.2.2 _ (List.mem_map_of_mem hold) _ (List.mem_map_of_mem hse) hvid

/-- **Missed once, missed for good.** -/
theorem Missed.step (h : Missed taskId se s)
    (hstep : Concurrent.step taskId pageLimit s a = some s') : Missed taskId se s' := by
  have hsound' := h.toSound.step hstep
  obtain ⟨event, rfl, rfl | ⟨n, hn, rfl⟩⟩ | ⟨se', hse', rfl, rfl⟩ | ⟨id, rfl, rfl⟩ |
    ⟨rfl, -, w, hw, rfl⟩ := step_cases hstep
  · exact ⟨hsound', h.mem, h.passed, h.absent⟩
  · exact ⟨hsound', h.mem, h.passed, h.absent⟩
  · obtain ⟨hmem, htask⟩ := mem_committedOf.mp h.mem
    exact ⟨hsound', mem_committedOf.mpr ⟨List.mem_append_left _ hmem, htask⟩, h.passed, h.absent⟩
  · exact ⟨hsound', h.mem, h.passed, h.absent⟩
  · -- later pages start at the cursor, which is beyond the event and does not go back
    obtain ⟨page, hpage, hout, hcursor⟩ := h.toSound.fetch_spec hw
    obtain ⟨c, hc, hlt⟩ := h.passed
    obtain ⟨c', hc', hle⟩ := hcursor c hc
    refine ⟨hsound', h.mem, ⟨c', hc', hlt.trans_le hle⟩, fun v hv hvid => ?_⟩
    rw [hout, List.mem_append, List.mem_map] at hv
    rcases hv with hv | ⟨se', hse', rfl⟩
    · exact h.absent v hv hvid
    · have hreach := (hpage se' hse').2
      rw [Option.mem_def.mp hc] at hreach
      exact absurd hlt (not_lt.mpr (hvid ▸ hreach))

/-! ### Runs -/

variable {partitions : List Partition} {acts : List Action}

/-- **When the walk is exact.** In every run that ends with the fetch on which the walk returns,
it returns exactly the events of the task committed at that moment, in strictly increasing
order of id, if and only if no commit of the run was before the cursor. -/
theorem concurrent_walk_exact_iff
    (hrun : run (Concurrent.step taskId pageLimit) { partitions } (acts ++ [.fetch]) = some s)
    (hreturned : s.walk.returned = true) :
    (s.walk.out = (s.committedOf taskId).map StoredEvent.view ∧
        (s.walk.out.map StoredEventView.id).Pairwise (· < ·)) ↔
      AllSteps (Concurrent.step taskId pageLimit) (InOrder taskId) { partitions }
        (acts ++ [.fetch]) := by
  constructor
  · -- a step out of order makes the walk miss its event for good
    rintro ⟨hexact, -⟩
    by_contra hnot
    obtain ⟨pre, a, post, t, u, -, hpre, ha, hstep, hpost⟩ :=
      exists_step_of_not_allSteps hnot hrun
    have hsound : Sound t := run_invariant (fun _ _ _ h hs => h.step hs) (sound_start _) hpre
    simp only [InOrder, not_forall, not_le] at ha
    obtain ⟨se, hse, rfl, htask, c, hc, hlt⟩ := ha
    have hmissed : Missed taskId se s :=
      run_invariant (fun _ _ _ h hs => h.step hs) (hsound.missed hse htask hc hlt hstep) hpost
    have hin : se.view ∈ s.walk.out := hexact ▸ List.mem_map_of_mem hmissed.mem
    exact hmissed.absent _ hin rfl
  · -- up to the last fetch the walk is in step, and that fetch completes it
    intro hall
    obtain ⟨t, hacts, hlast⟩ := run_append.mp hrun
    have htracking : Tracking taskId t :=
      run_invariant_of_allSteps (fun _ _ _ h hP hs => h.step hP hs) (tracking_start _ _)
        hall.of_append hacts
    obtain ⟨u, hfetch, hu⟩ := run_cons_eq_some.mp hlast
    obtain rfl : u = s := Option.some.inj hu
    have hsound : Sound u := htracking.toSound.step hfetch
    have hout := htracking.fetch hfetch hreturned
    refine ⟨hout, ?_⟩
    rw [hout, List.map_map]
    exact List.pairwise_map.mpr hsound.sorted_committedOf

/-- The partition of the month of `claimed`. -/
def january : Partition := ⟨"events_1970_01", .epoch, ⟨1970, 2, 1, by decide⟩⟩

/-- An event of the task `t`. -/
def claimed : Event := runEvent (isoMidnight .epoch) (.taskClaimed ⟨"a"⟩)

/-- Two transactions that commit in the order of their ids, with a fetch in between. -/
theorem concurrent_walk_exact_iff_two :
    ∃ s, run (Concurrent.step "t" 1) { partitions := [january] }
        ([.insert claimed, .insert claimed, .commit 1, .fetch, .commit 2, .fetch] ++ [.fetch]) =
          some s ∧
      ((s.walk.out = (s.committedOf "t").map StoredEvent.view ∧
          (s.walk.out.map StoredEventView.id).Pairwise (· < ·)) ↔
        AllSteps (Concurrent.step "t" 1) (InOrder "t") { partitions := [january] }
          ([.insert claimed, .insert claimed, .commit 1, .fetch, .commit 2, .fetch] ++
            [.fetch])) := by
  have hrun : ∃ s, run (Concurrent.step "t" 1) { partitions := [january] }
      ([.insert claimed, .insert claimed, .commit 1, .fetch, .commit 2, .fetch] ++ [.fetch]) =
        some s ∧ s.walk.returned = true := ⟨_, rfl, rfl⟩
  obtain ⟨s, hs, hreturned⟩ := hrun
  exact ⟨s, hs, concurrent_walk_exact_iff hs hreturned⟩

/-- Two transactions that commit the other way round: the walk is past the first id when the
first one commits, and returns without it. -/
theorem concurrent_walk_skips :
    ∃ s, run (Concurrent.step "t" 1) { partitions := [january] }
        [.insert claimed, .insert claimed, .commit 2, .fetch, .commit 1, .fetch] = some s ∧
      s.walk.returned = true ∧ s.walk.out.map StoredEventView.id = [2] ∧
      (s.committedOf "t").map StoredEvent.id = [1, 2] ∧
      s.walk.out ≠ (s.committedOf "t").map StoredEvent.view :=
  ⟨_, rfl, rfl, rfl, rfl, fun h => nomatch congrArg List.length h⟩

end Concurrent

end Vfobs
