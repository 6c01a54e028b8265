import Vfobs.Api.Resources
import Vfobs.Foundations.Run
import Vfobs.Repositories.Postgres

/-!
# A resource read among concurrent writers

An endpoint of `Resources` is suspended three times: at its call of vtaskforge, at the query
for the count and at the query for the last event. Each query has a snapshot of its own, and
writers commit at any time; their ids are given out before they commit, so that they commit
in any order of ids.

`VfobsPart.Describes` says that a part is right for the events of a resource in one state of
the table. `resource_snapshot_iff`: a response describes a state that the table had during
the request if and only if no commit between the two queries was of an event of the resource
above all those it had.
-/

namespace Vfobs

open StepSystem

/-- The part describes a resource that has `events`. -/
structure VfobsPart.Describes (part : VfobsPart) (events : List StoredEvent) : Prop where
  eventCount : part.eventCount = events.length
  lastEventId_eq_none_iff : part.lastEventId = none ↔ part.eventCount = 0
  lastEventId : ∀ i ∈ part.lastEventId, ∃ se ∈ events, se.id = i ∧ (∀ se' ∈ events, se'.id ≤ i) ∧
    part.lastEventType = some se.event.type ∧ part.lastEventAt = some se.event.timestamp

/-- A part that is built from the events of one state describes them. -/
theorem VfobsPart.describes_build {events : List StoredEvent}
    (hnodup : (events.map StoredEvent.id).Nodup) :
    (build events.length (KeyOrder.maxBy StoredEvent.id events)).Describes events := by
  cases hmax : KeyOrder.maxBy StoredEvent.id events with
  | none =>
    obtain rfl := KeyOrder.maxBy_eq_none_iff.mp hmax
    exact ⟨rfl, iff_of_true rfl rfl, nofun⟩
  | some tail =>
    obtain ⟨hmem, hle⟩ := (KeyOrder.maxBy_eq_some_iff hnodup).mp hmax
    refine ⟨rfl, iff_of_false (by simp [build]) (List.length_pos_of_mem hmem).ne', ?_⟩
    rintro i ⟨⟩
    exact ⟨tail, hmem, rfl, hle, rfl, rfl⟩

/-- The rows that are committed, in the order of their commits. -/
abbrev CommittedTable : Type :=
  { stored : List StoredEvent // (stored.map StoredEvent.id).Nodup }

namespace CommittedTable

/-- The table as a query sees it. -/
def repo (table : CommittedTable) : PostgresEventRepository where
  partitions := []
  rows := table.1.map storedToRow
  nextval := 1

theorem holds (table : CommittedTable) : table.repo.Holds table.1 := ⟨.refl _, table.2⟩

/-- The row of a transaction becomes visible; its id is no other's. -/
def commit (table : CommittedTable) (se : StoredEvent) : Option CommittedTable :=
  if h : se.id ∈ table.1.map StoredEvent.id then none
  else some ⟨table.1 ++ [se], by
    rw [List.map_append, List.map_singleton, List.nodup_append]
    refine ⟨table.2, List.nodup_singleton _, fun i hi j hj hij => h ?_⟩
    rwa [← List.mem_singleton.mp hj, ← hij]⟩

/-- The events of a resource, in the order of their commits. -/
def owned (table : CommittedTable) (kind : ResourceKind) (id : String) : List StoredEvent :=
  table.1.filter fun se => kind.Owns id se.event

variable {table table' : CommittedTable} {kind : ResourceKind} {id : String} {se : StoredEvent}

theorem nodup_owned (table : CommittedTable) (kind : ResourceKind) (id : String) :
    ((table.owned kind id).map StoredEvent.id).Nodup :=
  table.2.sublist (List.filter_sublist.map _)

/-- The log has the events of a resource in the order of their ids. -/
theorem select_log (table : CommittedTable) (kind : ResourceKind) (id : String) :
    table.holds.log.select (kind.Owns id) =
      KeyOrder.sort StoredEvent.id (table.owned kind id) :=
  KeyOrder.filter_sort table.2 _

theorem count_repo (table : CommittedTable) (kind : ResourceKind) (id : String) :
    kind.count table.repo id = (table.owned kind id).length := by
  rw [ResourceKind.count_eq table.holds.represents, EventLog.count, select_log,
    KeyOrder.length_sort]

theorem findLast_repo (table : CommittedTable) (kind : ResourceKind) (id : String) :
    kind.findLast table.repo id = .ok (KeyOrder.maxBy StoredEvent.id (table.owned kind id)) := by
  rw [ResourceKind.findLast_eq table.holds.represents, EventLog.last, select_log,
    KeyOrder.getLast?_sort (table.nodup_owned kind id)]

/-- **What a commit does to the events of a resource.** -/
theorem owned_commit (kind : ResourceKind) (id : String) (h : table.commit se = some table') :
    se ∉ table.owned kind id ∧ (∀ old ∈ table.owned kind id, old.id ≠ se.id) ∧
      table'.owned kind id =
        if kind.Owns id se.event then table.owned kind id ++ [se] else table.owned kind id := by
  rw [commit] at h
  split_ifs at h with hold
  obtain rfl := Option.some.inj h
  have hne : ∀ old ∈ table.owned kind id, old.id ≠ se.id := fun old hmem heq =>
    hold (heq ▸ List.mem_map_of_mem (List.mem_of_mem_filter hmem))
  refine ⟨fun hmem => hne se hmem rfl, hne, ?_⟩
  by_cases howns : kind.Owns id se.event
  · simp [owned, howns]
  · simp [owned, howns]

end CommittedTable

/-- How far the endpoint is. -/
inductive ReadStage (kind : ResourceKind)
  /-- vtaskforge has not answered. -/
  | asking
  /-- The count is to come. -/
  | counting (metadata : Option kind.Metadata)
  /-- The last event is to come. -/
  | reading (metadata : Option kind.Metadata) (count : ℕ)
  | returned (outcome : Except PyException (ReadResponse kind.Part))

/-- The table and a request. -/
structure ResourceRead (kind : ResourceKind) where
  table : CommittedTable
  stage : ReadStage kind := .asking

namespace ResourceRead

/-- What happens next. -/
inductive Action (kind : ResourceKind)
  /-- A writer commits. -/
  | commit (se : StoredEvent)
  /-- vtaskforge answers. -/
  | answer (metadata : Option kind.Metadata)
  /-- The query for the count. -/
  | count
  /-- The query for the last event. -/
  | tail

variable {kind : ResourceKind} (id : String)

/-- One step of a writer or of the endpoint; `none` where it cannot be taken. -/
def step (s : ResourceRead kind) : Action kind → Option (ResourceRead kind)
  | .commit se => (s.table.commit se).map fun table => { s with table }
  | .answer metadata =>
    match s.stage with
    | .asking => some { s with stage := .counting metadata }
    | _ => none
  | .count =>
    match s.stage with
    | .counting metadata =>
      let count := kind.count s.table.repo id
      match kind.checkFound metadata count with
      | .ok () => some { s with stage := .reading metadata count }
      | .error e => some { s with stage := .returned (.error e) }
    | _ => none
  | .tail =>
    match s.stage with
    | .reading metadata count =>
      let tail := kind.findLast s.table.repo id
      some { s with stage := .returned (kind.respond id metadata count tail) }
    | _ => none

/-- The events of the resource that are committed. -/
abbrev events (s : ResourceRead kind) : List StoredEvent := s.table.owned kind id

/-- Everything a step can do. -/
inductive Effect (s : ResourceRead kind) : Action kind → ResourceRead kind → Prop
  | commit {se : StoredEvent} {table : CommittedTable} (h : s.table.commit se = some table) :
      Effect s (.commit se) { s with table }
  | answer {metadata : Option kind.Metadata} (h : s.stage = .asking) :
      Effect s (.answer metadata) { s with stage := .counting metadata }
  | found {metadata : Option kind.Metadata} (h : s.stage = .counting metadata)
      (hfound : kind.checkFound metadata (s.events id).length = .ok ()) :
      Effect s .count { s with stage := .reading metadata (s.events id).length }
  | notFound {metadata : Option kind.Metadata} {e : PyException}
      (h : s.stage = .counting metadata)
      (hfound : kind.checkFound metadata (s.events id).length = .error e) :
      Effect s .count { s with stage := .returned (.error e) }
  | tail {metadata : Option kind.Metadata} {count : ℕ} (h : s.stage = .reading metadata count) :
      Effect s .tail { s with stage := .returned (.ok {
        id
        vtf := metadata.map kind.fromMetadata
        vfobs := .build count (KeyOrder.maxBy StoredEvent.id (s.events id)) }) }

variable {id} {s s' : ResourceRead kind} {a : Action kind}

/-- **The inversion lemma.** -/
theorem step_effect (h : s.step id a = some s') : Effect id s a s' := by
  cases a with
  | commit se =>
    obtain ⟨table, htable, rfl⟩ := Option.map_eq_some_iff.mp h
    exact .commit htable
  | answer metadata =>
    cases hstage : s.stage with
    | asking =>
      simp only [step, hstage, Option.some.injEq] at h
      exact h ▸ .answer hstage
    | counting | reading | returned => simp [step, hstage] at h
  | count =>
    cases hstage : s.stage with
    | counting metadata =>
      simp only [step, hstage, CommittedTable.count_repo] at h
      cases hfound : kind.checkFound metadata (s.table.owned kind id).length with
      | ok =>
        simp only [hfound, Option.some.injEq] at h
        exact h ▸ .found hstage hfound
      | error e =>
        simp only [hfound, Option.some.injEq] at h
        exact h ▸ .notFound hstage hfound
    | asking | reading | returned => simp [step, hstage] at h
  | tail =>
    cases hstage : s.stage with
    | reading metadata count =>
      simp only [step, hstage, CommittedTable.findLast_repo, ResourceKind.respond,
        Option.some.injEq] at h
      exact h ▸ .tail hstage
    | asking | counting | returned => simp [step, hstage] at h

/-- What the endpoint has done so far is what `read` does, on two tables. -/
def ReadsTables (id : String) (s : ResourceRead kind) : Prop :=
  match s.stage with
  | .reading metadata count => ∃ table : CommittedTable,
      kind.count table.repo id = count ∧ kind.checkFound metadata count = .ok ()
  | .returned outcome => ∃ metadata, ∃ table table' : CommittedTable,
      outcome = kind.read id metadata table.repo table'.repo
  | _ => True

theorem ReadsTables.step (hs : ReadsTables id s) (hstep : s.step id a = some s') :
    ReadsTables id s' := by
  cases step_effect hstep with
  | commit => exact hs
  | answer => trivial
  | found _ hfound => exact ⟨s.table, s.table.count_repo kind id, hfound⟩
  | @notFound metadata e _ hfound =>
    refine ⟨metadata, s.table, s.table, ?_⟩
    rw [ResourceKind.read, CommittedTable.count_repo, hfound]
    rfl
  | @tail metadata count hstage =>
    simp only [ReadsTables, hstage] at hs
    obtain ⟨table, rfl, hfound⟩ := hs
    refine ⟨metadata, table, s.table, ?_⟩
    rw [ResourceKind.read, hfound, CommittedTable.findLast_repo]
    rfl

/-- **The request is the endpoint**: what it returns is a `read` of two tables. -/
theorem exists_eq_read {table : CommittedTable} {acts : List (Action kind)}
    {outcome : Except PyException (ReadResponse kind.Part)}
    (hrun : run (step id) ⟨table, .asking⟩ acts = some s) (hs : s.stage = .returned outcome) :
    ∃ metadata, ∃ table table' : CommittedTable,
      outcome = kind.read id metadata table.repo table'.repo := by
  have hstart : ReadsTables id (⟨table, .asking⟩ : ResourceRead kind) := trivial
  have hreads : ReadsTables id s :=
    run_invariant (I := ReadsTables id) (fun _ _ _ h hs => h.step hs) hstart hrun
  rwa [ReadsTables, hs] at hreads

/-- A commit adds the event, if it is one of the resource. -/
theorem events_commit {se : StoredEvent} {table : CommittedTable} (stage : ReadStage kind)
    (h : s.table.commit se = some table) : events id ⟨table, stage⟩ =
      if kind.Owns id se.event then s.events id ++ [se] else s.events id :=
  (CommittedTable.owned_commit kind id h).2.2

/-- The events of the resource only grow, at their end. -/
theorem Effect.extends_events (h : Effect id s a s') : s.events id <+: s'.events id := by
  cases h with
  | commit h =>
    rw [events_commit _ h]
    split_ifs
    · exact List.prefix_append _ _
    · exact List.prefix_rfl
  | answer | found | notFound | tail => exact List.prefix_rfl

theorem extends_events_of_run {acts : List (Action kind)}
    (hrun : run (step id) s acts = some s') : s.events id <+: s'.events id :=
  run_invariant (I := fun t => s.events id <+: t.events id)
    (fun _ _ _ hpre h => hpre.trans (step_effect h).extends_events) List.prefix_rfl hrun

/-- A response is final. -/
theorem returned_of_run {acts : List (Action kind)}
    {outcome : Except PyException (ReadResponse kind.Part)} (hs : s.stage = .returned outcome)
    (hrun : run (step id) s acts = some s') : s'.stage = .returned outcome := by
  refine run_invariant (I := fun t => t.stage = .returned outcome) ?_ hs hrun
  intro t a t' ht hstep
  cases step_effect hstep with
  | commit => exact ht
  | answer h | found h | notFound h | tail h => exact nomatch h.symm.trans ht

/-! ### Commits between the queries -/

/-- The step commits no event of the resource, between the two queries, above all those that
are committed. -/
def BelowLast (id : String) (s : ResourceRead kind) (a : Action kind) : Prop :=
  ∀ metadata count se, s.stage = .reading metadata count → a = .commit se →
    kind.Owns id se.event → ∃ old ∈ s.events id, se.id < old.id

theorem belowLast_tail (s : ResourceRead kind) : BelowLast id s .tail := by
  intro metadata count se _ h
  exact nomatch h

/-- Between the queries: `n` events were counted, and those committed since are below one of
them. -/
def Calm (id : String) (n : ℕ) (s : ResourceRead kind) : Prop :=
  match s.stage with
  | .reading _ count => count = n ∧ n ≤ (s.events id).length ∧
      ∀ se ∈ (s.events id).drop n, ∃ old ∈ (s.events id).take n, se.id < old.id
  | .returned _ => True
  | _ => False

theorem Calm.step {n : ℕ} (hs : Calm id n s) (ha : BelowLast id s a)
    (hstep : s.step id a = some s') : Calm id n s' := by
  cases step_effect hstep with
  | @commit se table h =>
    cases hstage : s.stage with
    | asking | counting => simp [Calm, hstage] at hs
    | returned outcome => trivial
    | reading metadata count =>
      simp only [Calm, hstage] at hs ⊢
      obtain ⟨hcount, hlen, hbelow⟩ := hs
      rw [events_commit _ h]
      split_ifs with howns
      · have hdrop : (s.events id ++ [se]).drop n = (s.events id).drop n ++ [se] :=
          List.drop_append_of_le_length hlen
        have htake : (s.events id ++ [se]).take n = (s.events id).take n :=
          List.take_append_of_le_length hlen
        refine ⟨hcount, hlen.trans (by simp), ?_⟩
        rw [hdrop, htake]
        intro se' hse'
        rcases List.mem_append.mp hse' with hse' | hse'
        · exact hbelow se' hse'
        · obtain rfl := List.mem_singleton.mp hse'
          obtain ⟨old, hold, hlt⟩ := ha metadata count se' hstage rfl howns
          -- `old` was counted, or is itself below one that was
          rw [← List.take_append_drop n (s.events id)] at hold
          rcases List.mem_append.mp hold with hold | hold
          · exact ⟨old, hold, hlt⟩
          · obtain ⟨top, htop, hlt'⟩ := hbelow old hold
            exact ⟨top, htop, hlt.trans hlt'⟩
      · exact ⟨hcount, hlen, hbelow⟩
  | answer h | found h | notFound h => simp [Calm, h] at hs
  | tail => trivial

/-- Between the queries: an event that was not counted is above all that were. -/
def Torn (id : String) (s : ResourceRead kind) : Prop :=
  match s.stage with
  | .reading _ count => count ≤ (s.events id).length ∧
      ∃ se ∈ (s.events id).drop count, ∀ old ∈ (s.events id).take count, old.id < se.id
  | .returned _ => True
  | _ => False

theorem Torn.step (hs : Torn id s) (hstep : s.step id a = some s') : Torn id s' := by
  cases step_effect hstep with
  | @commit se table h =>
    cases hstage : s.stage with
    | asking | counting => simp [Torn, hstage] at hs
    | returned outcome => trivial
    | reading metadata count =>
      simp only [Torn, hstage] at hs ⊢
      obtain ⟨hlen, top, htop, habove⟩ := hs
      rw [events_commit _ h]
      split_ifs
      · rw [List.drop_append_of_le_length hlen, List.take_append_of_le_length hlen]
        exact ⟨hlen.trans (by simp), top, List.mem_append_left _ htop, habove⟩
      · exact ⟨hlen, top, htop, habove⟩
  | answer h | found h | notFound h => simp [Torn, h] at hs
  | tail => trivial

/-- No more events are counted than there are. -/
def Counted (id : String) (s : ResourceRead kind) : Prop :=
  ∀ metadata count, s.stage = .reading metadata count → count ≤ (s.events id).length

theorem counted_start (table : CommittedTable) :
    Counted id (⟨table, .asking⟩ : ResourceRead kind) := by
  simp [Counted]

theorem Counted.step (hs : Counted id s) (hstep : s.step id a = some s') : Counted id s' := by
  have hgrows := (step_effect hstep).extends_events.length_le
  cases step_effect hstep with
  | commit => exact fun metadata count hstage => (hs metadata count hstage).trans hgrows
  | answer | notFound | tail => exact nofun
  | found =>
    rintro metadata count ⟨⟩
    exact le_rfl

/-- A commit above the last event, between the queries, tears the response. -/
theorem Counted.torn (hs : Counted id s) (ha : ¬ BelowLast id s a)
    (hstep : s.step id a = some s') : Torn id s' := by
  simp only [BelowLast, not_forall, not_exists, not_and, not_lt] at ha
  obtain ⟨metadata, count, se, hstage, rfl, howns, habove⟩ := ha
  cases step_effect hstep with
  | commit hcommit =>
    obtain ⟨-, hne, -⟩ := CommittedTable.owned_commit kind id hcommit
    have hlen := hs metadata count hstage
    simp only [Torn, hstage]
    rw [events_commit _ hcommit, if_pos howns, List.drop_append_of_le_length hlen,
      List.take_append_of_le_length hlen]
    refine ⟨hlen.trans (by simp), se, by simp, fun old hold => ?_⟩
    have hmem := List.mem_of_mem_take hold
    exact lt_of_le_of_ne (habove old hmem) (hne old hmem)

/-! ### Runs -/

variable {table : CommittedTable} {acts : List (Action kind)}
  {response : ReadResponse kind.Part}

/-- The part describes a state that the table has during a request. -/
def IsSnapshot (id : String) (table : CommittedTable) (acts : List (Action kind))
    (part : VfobsPart) : Prop :=
  ∃ pre post t, acts = pre ++ post ∧ run (step id) ⟨table, .asking⟩ pre = some t ∧
    part.Describes (t.events id)

/-- The response is that of the query for the last event. -/
theorem response_of_tail (hstep : s.step id .tail = some s')
    (hreturned : s'.stage = .returned (.ok response)) :
    s'.table = s.table ∧ ∃ metadata count, s.stage = .reading metadata count ∧
      response.vfobs = .build count (KeyOrder.maxBy StoredEvent.id (s.events id)) := by
  cases step_effect hstep with
  | @tail metadata count hstage =>
    obtain rfl := Except.ok.inj (ReadStage.returned.inj hreturned)
    exact ⟨rfl, metadata, count, hstage, rfl⟩

/-- The query for the count is in the run. -/
theorem exists_count (hrun : run (step id) ⟨table, .asking⟩ acts = some s)
    {metadata : Option kind.Metadata} {count : ℕ} (hstage : s.stage = .reading metadata count) :
    ∃ pre post t metadata', acts = pre ++ .count :: post ∧
      run (step id) ⟨table, .asking⟩ pre = some t ∧
      t.step id .count = some { t with stage := .reading metadata' (t.events id).length } ∧
      run (step id) { t with stage := .reading metadata' (t.events id).length } post = some s := by
  obtain ⟨pre, a, post, t, u, rfl, hpre, hbefore, hstep, hafter, hpost⟩ :=
    exists_step_of_leaves (P := fun s : ResourceRead kind =>
      s.stage = .asking ∨ ∃ metadata, s.stage = .counting metadata) (.inl rfl)
      (by simp [hstage]) hrun
  cases step_effect hstep with
  | commit => exact absurd hbefore hafter
  | answer => exact absurd (.inr ⟨_, rfl⟩) hafter
  | found => exact ⟨pre, post, t, _, rfl, hpre, hstep, hpost⟩
  | notFound => exact nomatch hstage.symm.trans (returned_of_run rfl hpost)
  | tail hreading => simp [hreading] at hbefore

theorem eventCount_build (count : ℕ) (tail : Option StoredEvent) :
    (VfobsPart.build count tail).eventCount = count := by
  cases tail <;> rfl

/-- A torn response describes no earlier state. -/
theorem Torn.not_describes (hs : Torn id s) {metadata : Option kind.Metadata} {count : ℕ}
    (hstage : s.stage = .reading metadata count) {before : List StoredEvent}
    (hbefore : before <+: s.events id) :
    ¬ (VfobsPart.build count (KeyOrder.maxBy StoredEvent.id (s.events id))).Describes before := by
  intro hdescribes
  simp only [Torn, hstage] at hs
  obtain ⟨-, top, htop, habove⟩ := hs
  have hcount : count = before.length := (eventCount_build _ _).symm.trans hdescribes.eventCount
  have htake : before = (s.events id).take count := by
    rw [hcount]
    exact List.prefix_iff_eq_take.mp hbefore
  have hmem : top ∈ s.events id := List.mem_of_mem_drop htop
  cases hmax : KeyOrder.maxBy StoredEvent.id (s.events id) with
  | none => exact List.ne_nil_of_mem hmem (KeyOrder.maxBy_eq_none_iff.mp hmax)
  | some last =>
    have hnodup := s.table.nodup_owned kind id
    have hle : top.id ≤ last.id := ((KeyOrder.maxBy_eq_some_iff hnodup).mp hmax).2 top hmem
    rw [hmax] at hdescribes
    obtain ⟨se, hse, hid, -⟩ := hdescribes.lastEventId last.id rfl
    have hlt := habove se (htake ▸ hse)
    omega

/-- A run with a commit above the last event, between the queries, ends torn. -/
theorem torn_of_not_allSteps (hrun : run (step id) ⟨table, .asking⟩ acts = some s)
    (hnot : ¬ AllSteps (step id) (BelowLast id) ⟨table, .asking⟩ acts) : Torn id s := by
  obtain ⟨_, a, _, t, u, _, hbefore, ha, hstep, hafter⟩ := exists_step_of_not_allSteps hnot hrun
  have hcounted : Counted id t :=
    run_invariant (I := Counted id) (fun _ _ _ h hs => h.step hs) (counted_start table) hbefore
  exact run_invariant (I := Torn id) (fun _ _ _ h hs => h.step hs) (hcounted.torn ha hstep) hafter

/-- Without such a commit the last event is the one that the count has met. -/
theorem exists_describes_of_allSteps (hrun : run (step id) ⟨table, .asking⟩ acts = some s)
    {metadata : Option kind.Metadata} {count : ℕ} (hstage : s.stage = .reading metadata count)
    (hall : AllSteps (step id) (BelowLast id) ⟨table, .asking⟩ acts) :
    ∃ pre post t, acts = pre ++ post ∧ run (step id) ⟨table, .asking⟩ pre = some t ∧
      (VfobsPart.build count (KeyOrder.maxBy StoredEvent.id (s.events id))).Describes
        (t.events id) := by
  obtain ⟨pre, post, t, metadata', rfl, hpre, hcount, hpost⟩ := exists_count hrun hstage
  have hall' : AllSteps (step id) (BelowLast id) _ post :=
    (hall.of_append_right hpre).2 _ hcount
  have hcalm₀ : Calm id (t.events id).length
      { t with stage := .reading metadata' (t.events id).length } := by simp [Calm]
  have hcalm : Calm id (t.events id).length s :=
    run_invariant_of_allSteps (I := Calm id (t.events id).length)
      (fun _ _ _ h hP hs => h.step hP hs) hcalm₀ hall' hpost
  simp only [Calm, hstage] at hcalm
  obtain ⟨rfl, -, hbelow⟩ := hcalm
  have hgrows : t.events id <+: s.events id := (extends_events_of_run hpost :)
  have htake : t.events id = (s.events id).take (t.events id).length :=
    List.prefix_iff_eq_take.mp hgrows
  have hmax : KeyOrder.maxBy StoredEvent.id (s.events id) =
      KeyOrder.maxBy StoredEvent.id (t.events id) := by
    have hnodup := s.table.nodup_owned kind id
    rw [← List.take_append_drop (t.events id).length (s.table.owned kind id)] at hnodup
    rw [← List.take_append_drop (t.events id).length (s.events id),
      KeyOrder.maxBy_append_of_lower hnodup hbelow, ← htake]
  refine ⟨pre, .count :: post, t, rfl, hpre, ?_⟩
  rw [hmax]
  exact VfobsPart.describes_build (t.table.nodup_owned kind id)

/-- **When a response is a snapshot.** In every run that ends with the query for the last
event: the part that is returned describes a state that the table had during the request if
and only if no commit between the two queries was of an event of the resource above all those
it had. -/
theorem resource_snapshot_iff
    (hrun : run (step id) ⟨table, .asking⟩ (acts ++ [.tail]) = some s)
    (hreturned : s.stage = .returned (.ok response)) :
    IsSnapshot id table (acts ++ [.tail]) response.vfobs ↔
      AllSteps (step id) (BelowLast id) ⟨table, .asking⟩ (acts ++ [.tail]) := by
  obtain ⟨t, hacts, hlast⟩ := run_append.mp hrun
  obtain ⟨u, htail, hu⟩ := run_cons_eq_some.mp hlast
  obtain rfl : u = s := Option.some.inj hu
  obtain ⟨htable, metadata, count, hstage, hpart⟩ := response_of_tail htail hreturned
  have hevents : u.events id = t.events id := congrArg (fun table => table.owned kind id) htable
  rw [hpart]
  constructor
  · rintro ⟨pre, post, v, hsplit, hpre, hdescribes⟩
    by_contra hnot
    have htorn : Torn id t := torn_of_not_allSteps hacts fun hall =>
      hnot (hall.append fun t _ => ⟨belowLast_tail t, fun _ _ => trivial⟩)
    have hgrows : v.events id <+: u.events id := by
      obtain ⟨v', hv', hpost⟩ := run_append.mp (hsplit ▸ hrun)
      obtain rfl := Option.some.inj (hpre.symm.trans hv')
      exact extends_events_of_run hpost
    exact htorn.not_describes hstage (hevents ▸ hgrows) hdescribes
  · intro hall
    obtain ⟨pre, post, v, rfl, hpre, hdescribes⟩ :=
      exists_describes_of_allSteps hacts hstage hall.of_append
    exact ⟨pre, post ++ [.tail], v, List.append_assoc .., hpre, hdescribes⟩

/-- A claim of the task `t`. -/
def claim (id : ℤ) : StoredEvent := ⟨id, runEvent (isoMidnight .epoch) (.taskClaimed ⟨"a"⟩)⟩

/-- A table with one claim. -/
def oneClaim : CommittedTable := ⟨[claim 1], List.nodup_singleton _⟩

/-- A request that nobody interferes with. -/
def aloneActs : List (Action .task) := [.answer none, .count]

/-- A request with a commit between its queries. -/
def tornActs : List (Action .task) := [.answer none, .count, .commit (claim 2)]

theorem resource_snapshot_iff_alone :
    ∃ s response, run (step "t") ⟨oneClaim, .asking⟩ (aloneActs ++ [.tail]) = some s ∧
      s.stage = .returned (.ok response) ∧
      (IsSnapshot "t" oneClaim (aloneActs ++ [.tail]) response.vfobs ↔
        AllSteps (step "t") (BelowLast "t") ⟨oneClaim, .asking⟩ (aloneActs ++ [.tail])) := by
  obtain ⟨s, response, hs, hreturned⟩ : ∃ s response,
      run (step "t") ⟨oneClaim, .asking⟩ (aloneActs ++ [.tail]) = some s ∧
        s.stage = .returned (.ok response) := ⟨_, _, rfl, rfl⟩
  exact ⟨s, response, hs, hreturned, resource_snapshot_iff hs hreturned⟩

/-- The response counts one event and has the id of the second, which is true of no state of
the table. -/
theorem resource_read_torn :
    ∃ s response, run (step "t") ⟨oneClaim, .asking⟩ (tornActs ++ [.tail]) = some s ∧
      s.stage = .returned (.ok response) ∧
      response.vfobs.eventCount = 1 ∧ response.vfobs.lastEventId = some 2 ∧
      ¬ IsSnapshot "t" oneClaim (tornActs ++ [.tail]) response.vfobs := by
  refine ⟨_, _, rfl, rfl, rfl, rfl, ?_⟩
  rintro ⟨pre, post, t, hsplit, hpre, hdescribes⟩
  have hrun : run (step "t") ⟨oneClaim, .asking⟩ (tornActs ++ [.tail]) = some _ := rfl
  obtain ⟨u, hu, hpost⟩ := run_append.mp (hsplit ▸ hrun)
  obtain rfl := Option.some.inj (hpre.symm.trans hu)
  have hgrows : t.events "t" <+: [claim 1, claim 2] := (extends_events_of_run hpost :)
  have hlen : (t.events "t").length = 1 := hdescribes.eventCount.symm
  -- a state with one event has the first only
  have hone : t.events "t" = [claim 1] := by
    rw [List.prefix_iff_eq_take.mp hgrows, hlen]
    rfl
  obtain ⟨se, hse, hid, -⟩ := hdescribes.lastEventId 2 rfl
  obtain rfl := List.mem_singleton.mp (hone ▸ hse)
  exact absurd hid (by decide)

end ResourceRead

end Vfobs
