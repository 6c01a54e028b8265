import Vfobs.Api.Transactions

/-!
# Requests that interfere

What can be said of one request while any others use the database: `interference` is the argument
by rely and guarantee. A request guarantees that it takes back no commit and makes none in the
name of another (`Database.Advances`). `Account` says of each stage which row of the request there
is, committed or open, and `Moment` which moment of the table its queries have met; `Explains` is
what comes of it in the end.
-/

namespace Vfobs

open TaskPool

namespace Database

variable {db db' : Database} {transaction other : ℕ} {rows : List (ℕ × StoredEvent)}

/-- What a request does to the database, as the others see it: commits are final, and both what
is committed and what is open is its own. -/
structure Advances (transaction : ℕ) (db db' : Database) : Prop where
  partitions : db'.partitions = db.partitions
  before : db'.before = db.before
  commits : ∃ new, db'.commits = db.commits ++ new ∧ ∀ row ∈ new, row.1 = transaction
  opened : ∀ other, transaction ≠ other → db'.openedBy other = db.openedBy other

theorem advances_refl (db : Database) : Advances transaction db db :=
  ⟨rfl, rfl, ⟨[], by simp⟩, fun _ _ => rfl⟩

theorem advances_hold (db : Database) (event : Event) :
    Advances transaction db (db.hold transaction event) := by
  refine ⟨rfl, rfl, ⟨[], by simp [hold]⟩, fun other hne => ?_⟩
  simp [openedBy, hold, hne]

theorem advances_skip (db : Database) (event : Event) : Advances transaction db (db.skip event) :=
  ⟨rfl, rfl, ⟨[], by simp [skip]⟩, fun _ _ => rfl⟩

/-- The rows of others stay open when a transaction ends. -/
theorem openedBy_filter_ne (hne : transaction ≠ other) :
    (db.opened.filter fun row => row.1 ≠ transaction).filter (fun row => row.1 = other) =
      db.openedBy other := by
  rw [openedBy, List.filter_filter]
  refine List.filter_congr fun row _ => ?_
  by_cases hrow : row.1 = other
  · simp [hrow, hne.symm]
  · simp [hrow]

theorem advances_commit (db : Database) : Advances transaction db (db.commit transaction) :=
  ⟨rfl, rfl, ⟨db.openedBy transaction, rfl, fun _ hrow => by
    simpa using (List.mem_filter.mp hrow).2⟩, fun _ hne => openedBy_filter_ne hne⟩

theorem advances_rollback (db : Database) : Advances transaction db (db.rollback transaction) :=
  ⟨rfl, rfl, ⟨[], by simp [rollback]⟩, fun _ hne => openedBy_filter_ne hne⟩

/-- Commits are final. -/
structure Grows (db db' : Database) : Prop where
  before : db'.before = db.before
  commits : db.commits <+: db'.commits

theorem grows_refl (db : Database) : Grows db db := ⟨rfl, List.prefix_rfl⟩

theorem Grows.trans {db'' : Database} (h : Grows db db') (h' : Grows db' db'') : Grows db db'' :=
  ⟨h'.before.trans h.before, h.commits.trans h'.commits⟩

theorem Advances.grows (h : Advances transaction db db') : Grows db db' := by
  obtain ⟨new, hnew, -⟩ := h.commits
  exact ⟨h.before, new, hnew.symm⟩

theorem Grows.committed (h : Grows db db') : db.committed <+: db'.committed := by
  obtain ⟨new, hnew⟩ := h.commits
  rw [Database.committed, Database.committed, h.before, ← hnew, List.map_append,
    ← List.append_assoc]
  exact List.prefix_append _ _

theorem Advances.committed (h : Advances transaction db db') : db.committed <+: db'.committed :=
  h.grows.committed

/-- What was committed at a moment does not change. -/
theorem snapshot_of_committed (h : db.committed <+: db'.committed) {i : ℕ}
    (hi : i ≤ db.committed.length) : db'.snapshot i = db.snapshot i := by
  obtain ⟨later, hlater⟩ := h
  refine Subtype.ext ?_
  simp only [snapshot, ← hlater]
  exact List.take_append_of_le_length hi

theorem Advances.mem_commits (h : Advances transaction db db') (hne : transaction ≠ other)
    {se : StoredEvent} : (other, se) ∈ db'.commits ↔ (other, se) ∈ db.commits := by
  obtain ⟨new, hnew, hown⟩ := h.commits
  rw [hnew, List.mem_append]
  exact or_iff_left fun hmem => hne (hown _ hmem).symm

/-- A transaction has committed nothing, and has rows open. -/
def HasOpen (db : Database) (transaction : ℕ) (rows : List (ℕ × StoredEvent)) : Prop :=
  transaction ∉ db.commits.map Prod.fst ∧ db.openedBy transaction = rows

theorem notMem_commits_iff :
    transaction ∉ db.commits.map Prod.fst ↔ ∀ se, (transaction, se) ∉ db.commits := by
  simp

theorem Advances.hasOpen (h : Advances transaction db db') (hne : transaction ≠ other) :
    db'.HasOpen other rows ↔ db.HasOpen other rows := by
  rw [HasOpen, HasOpen, notMem_commits_iff, notMem_commits_iff, h.opened other hne]
  simp only [h.mem_commits hne]

theorem HasOpen.hold (h : db.HasOpen transaction []) (event : Event) :
    (db.hold transaction event).HasOpen transaction [(transaction, ⟨db.nextval, event⟩)] := by
  refine ⟨h.1, ?_⟩
  rw [openedBy_hold, h.2, List.nil_append]

/-- The commit of a row. -/
theorem HasOpen.commit {se : StoredEvent} (h : db.HasOpen transaction [(transaction, se)]) :
    (db.commit transaction).commits = db.commits ++ [(transaction, se)] ∧
      (db.commit transaction).committed = db.committed ++ [se] := by
  constructor
  · exact congrArg (db.commits ++ ·) h.2
  · rw [committed_commit, h.2]
    rfl

/-- The table and its partitions take an event. -/
def Takes (db : Database) (event : Event) : Prop :=
  (eventToRow event).Admitted ∧ db.repo.Routable (eventToRow event)

theorem takes_iff {event : Event} :
    db.Takes event ↔ ∃ id, (db.repo.store event).1 = .ok id := by
  constructor
  · rintro ⟨hrow, hroute⟩
    simp [PostgresEventRepository.store, hrow, hroute]
  · rintro ⟨id, hid⟩
    by_contra hnot
    obtain ⟨e, he⟩ := PostgresEventRepository.store_error hnot
    simp [he] at hid

theorem Advances.takes (h : Advances transaction db db') {event : Event} :
    db'.Takes event ↔ db.Takes event := by
  simp only [Takes, PostgresEventRepository.Routable, repo, h.partitions]

end Database

section

variable {β : Type} (readInt : String → Except String ℤ) (loads : β → Except PyException Json)

/-! ### Whose rows there are -/

namespace Database

variable (db : Database) (transaction : ℕ) (op : Operation β)

/-- The row of a request at a stage of its operation. -/
def Account : QueryStage β → Prop
  | .inserting event => op = .append event ∧ db.HasOpen transaction []
  | .committing id => ∃ event, op = .append event ∧ db.Takes event ∧
      db.HasOpen transaction [(transaction, ⟨id, event⟩)]
  | .stored id => ∃ event, op = .append event ∧ db.Takes event ∧
      (transaction, ⟨id, event⟩) ∈ db.commits
  | .reading call vtf => op = .read call vtf ∧ db.HasOpen transaction []
  | .readingLast kind id metadata _ =>
    (∃ vtf, op = .read (.getResource kind id) vtf ∧ metadata = kind.fetch readInt loads vtf) ∧
      db.HasOpen transaction []
  | .computing strategy => (∃ vtf, op = .read strategy.call vtf) ∧ db.HasOpen transaction []

/-- The row of a request that is over: it has one if it was told so, and its own event only. -/
structure AccountOver (result : Option Result) : Prop where
  posted : ∀ se, (transaction, se) ∈ db.commits → op = .append se.event
  created : ∀ r ∈ result, ∀ id, r = .created id ↔ ∃ event, (transaction, ⟨id, event⟩) ∈ db.commits

/-- Each request has one row at most. -/
def OneEach : Prop := (db.commits.map Prod.fst).Nodup

variable {db transaction op} {db' : Database} {other : ℕ} {stage : QueryStage β}
  {result : Option Result}

theorem Advances.account (h : Advances other db db') (hne : other ≠ transaction)
    (hs : db.Account readInt loads transaction op stage) :
    db'.Account readInt loads transaction op stage := by
  cases stage with
  | inserting | reading | readingLast | computing => exact ⟨hs.1, (h.hasOpen hne).mpr hs.2⟩
  | committing id =>
    obtain ⟨event, hop, htakes, hopen⟩ := hs
    exact ⟨event, hop, h.takes.mpr htakes, (h.hasOpen hne).mpr hopen⟩
  | stored id =>
    obtain ⟨event, hop, htakes, hmem⟩ := hs
    exact ⟨event, hop, h.takes.mpr htakes, (h.mem_commits hne).mpr hmem⟩

theorem Advances.accountOver (h : Advances other db db') (hne : other ≠ transaction)
    (hs : db.AccountOver transaction op result) : db'.AccountOver transaction op result where
  posted se hse := hs.posted se ((h.mem_commits hne).mp hse)
  created r hr id := by simpa only [h.mem_commits hne] using hs.created r hr id

/-- A request without a row is told of none. -/
theorem HasOpen.accountOver {rows : List (ℕ × StoredEvent)} (h : db.HasOpen transaction rows)
    (hresult : ∀ r ∈ result, ∀ id, r ≠ .created id) : db.AccountOver transaction op result := by
  have hnone := notMem_commits_iff.mp h.1
  exact ⟨fun se hse => absurd hse (hnone se), fun r hr id =>
    iff_of_false (hresult r hr id) fun ⟨event, hevent⟩ => hnone _ hevent⟩

end Database

/-! ### Which moments a request has met -/

namespace Database

variable (db : Database) (m : ℕ) (op : Operation β)

/-- Moments of the table from the `m`-th commit on that the stages so far have met. -/
def Moment : QueryStage β → Prop
  | .stored id => ∃ event i, op = .append event ∧ m ≤ i ∧ db.committed[i]? = some ⟨id, event⟩
  | .readingLast kind id metadata count => ∃ i, m ≤ i ∧ i ≤ db.committed.length ∧
      kind.count (db.snapshot i).repo id = count ∧ kind.checkFound metadata count = .ok ()
  | .computing strategy => ∃ i, m ≤ i ∧ i ≤ db.committed.length ∧
      CostRead.Known strategy (db.snapshot i)
  | _ => True

/-- The result is that of moments from the `m`-th commit on. A post has stored its event with one
commit, or the database does not take the event. A read is that of one moment; only a resource may
be that of two, its count from the first and its last event from the second, and then events of
the resource have been committed in between. -/
def Explains : Operation β → Result → Prop
  | .append event, result =>
    (db.Takes event ∧ ∃ id i, result = .created id ∧ m ≤ i ∧
        db.committed[i]? = some ⟨id, event⟩) ∨
      ¬ db.Takes event ∧ ∃ e, result = .failed (.exception e)
  | .read (.getResource kind id) vtf, result =>
    ∃ i j, m ≤ i ∧ i ≤ j ∧ j ≤ db.committed.length ∧
      result = .ofRead ((kind.read id (kind.fetch readInt loads vtf) (db.snapshot i).repo
        (db.snapshot j).repo).map (.resource kind)) ∧
      (i ≠ j → (db.snapshot i).owned kind id ≠ (db.snapshot j).owned kind id)
  | .read call vtf, result =>
    ∃ i, m ≤ i ∧ i ≤ db.committed.length ∧
      result = .ofRead (serveCall readInt loads (db.snapshot i).repo vtf call)
  | .fail failure, result => result = .failed failure

variable {db m op} {db' : Database} {stage : QueryStage β} {result : Result}

theorem getElem?_of_committed (h : db.committed <+: db'.committed) {i : ℕ} {se : StoredEvent}
    (hi : db.committed[i]? = some se) : db'.committed[i]? = some se := by
  obtain ⟨later, hlater⟩ := h
  rw [← hlater, List.getElem?_append_left (List.getElem?_eq_some_iff.mp hi).1, hi]

theorem Moment.extend (hs : db.Moment m op stage) (h : db.committed <+: db'.committed) :
    db'.Moment m op stage := by
  cases stage with
  | inserting | committing | reading => trivial
  | stored id =>
    obtain ⟨event, i, hop, hm, hi⟩ := hs
    exact ⟨event, i, hop, hm, getElem?_of_committed h hi⟩
  | readingLast kind id metadata count =>
    obtain ⟨i, hm, hi, hcount, hfound⟩ := hs
    exact ⟨i, hm, hi.trans h.length_le, snapshot_of_committed h hi ▸ hcount, hfound⟩
  | computing strategy =>
    obtain ⟨i, hm, hi, hknown⟩ := hs
    exact ⟨i, hm, hi.trans h.length_le, (snapshot_of_committed h hi).symm ▸ hknown⟩

theorem Explains.extend (hs : db.Explains readInt loads m op result)
    (h : db.committed <+: db'.committed) (htakes : ∀ event, db'.Takes event ↔ db.Takes event) :
    db'.Explains readInt loads m op result := by
  cases op with
  | append event =>
    obtain ⟨htake, id, i, hcreated, hm, hi⟩ | ⟨hnot, hfailed⟩ := hs
    · exact .inl ⟨(htakes event).mpr htake, id, i, hcreated, hm, getElem?_of_committed h hi⟩
    · exact .inr ⟨fun htake => hnot ((htakes event).mp htake), hfailed⟩
  | read call vtf =>
    cases call with
    | getResource kind id =>
      obtain ⟨i, j, hm, hij, hj, hresult, htorn⟩ := hs
      refine ⟨i, j, hm, hij, hj.trans h.length_le, ?_⟩
      rw [snapshot_of_committed h hj, snapshot_of_committed h (hij.trans hj)]
      exact ⟨hresult, htorn⟩
    | getTaskEvents | listEvents | workgraphCost | agentCost =>
      obtain ⟨i, hm, hi, hresult⟩ := hs
      refine ⟨i, hm, hi.trans h.length_le, ?_⟩
      rw [snapshot_of_committed h hi]
      exact hresult
  | fail failure => exact hs

/-- A read that is answered as one moment has it. -/
theorem explains_read (call : ReadCall) (vtf : Option (Upstream β))
    (hm : m ≤ db.committed.length) : db.Explains readInt loads m (.read call vtf)
      (.ofRead (serveCall readInt loads db.table.repo vtf call)) := by
  have hnow := db.snapshot_length
  cases call with
  | getResource kind id =>
    refine ⟨_, _, hm, le_rfl, le_rfl, ?_, fun hne => absurd rfl hne⟩
    rw [hnow]
    rfl
  | getTaskEvents | listEvents | workgraphCost | agentCost =>
    refine ⟨_, hm, le_rfl, ?_⟩
    rw [hnow]

/-- The two queries of a resource: unless events of its own were committed in between, the moment
of the second would have done for the first. -/
theorem explains_readLast {kind : ResourceKind} {id : String} (vtf : Option (Upstream β)) {i : ℕ}
    (hm : m ≤ i) (hi : i ≤ db.committed.length)
    (hfound : kind.checkFound (kind.fetch readInt loads vtf)
      (kind.count (db.snapshot i).repo id) = .ok ()) :
    db.Explains readInt loads m (.read (.getResource kind id) vtf)
      (.ofRead ((kind.respond id (kind.fetch readInt loads vtf)
        (kind.count (db.snapshot i).repo id) (kind.findLast db.table.repo id)).map
          (.resource kind))) := by
  rw [ResourceKind.respond_eq_read hfound, ← db.snapshot_length]
  by_cases hsame : (db.snapshot i).owned kind id =
      (db.snapshot db.committed.length).owned kind id
  · have hcount : kind.count (db.snapshot i).repo id =
        kind.count (db.snapshot db.committed.length).repo id := by
      rw [CommittedTable.count_repo, CommittedTable.count_repo, hsame]
    refine ⟨_, _, hm.trans hi, le_rfl, le_rfl, ?_, fun hne => absurd rfl hne⟩
    rw [ResourceKind.read, ResourceKind.read, hcount]
  · exact ⟨i, _, hm, hi, le_rfl, rfl, fun _ => hsame⟩

theorem explains_cost {strategy : CostAggregationStrategy} (vtf : Option (Upstream β)) {i : ℕ}
    (hm : m ≤ i) (hi : i ≤ db.committed.length)
    (hknown : CostRead.Known strategy (db.snapshot i)) :
    db.Explains readInt loads m (.read strategy.call vtf)
      (.ofRead ((CostAggregationStrategy.answer (strategy.compute db.table.repo)).map
        strategy.body)) := by
  -- the scope still has the event that the first query has found
  have hstill : CostRead.Known strategy db.table := by
    obtain ⟨se, hse, hcovers⟩ := hknown
    exact ⟨se, List.mem_of_mem_take hse, hcovers⟩
  rw [CostAggregationStrategy.answer_eq_serveCall readInt loads hstill vtf]
  exact explains_read readInt loads _ vtf (hm.trans hi)

/-! ### The argument -/

/-- What always holds: each request has one row at most, and there have been `m` commits. -/
structure Sound (db : Database) (m : ℕ) : Prop where
  oneEach : db.OneEach
  moments : m ≤ db.committed.length

variable {transaction : ℕ}

theorem OneEach.eq (h : db.OneEach) {se se' : StoredEvent} (hse : (transaction, se) ∈ db.commits)
    (hse' : (transaction, se') ∈ db.commits) : se = se' :=
  congrArg Prod.snd (List.inj_on_of_nodup_map h hse hse' rfl)

/-- At every stage a request has no row but one of its own event. -/
theorem Account.posted (hs : db.Account readInt loads transaction op stage) (hone : db.OneEach)
    (se : StoredEvent) (hse : (transaction, se) ∈ db.commits) : op = .append se.event := by
  have hnone : ∀ {rows}, ¬ db.HasOpen transaction rows := fun hopen =>
    notMem_commits_iff.mp hopen.1 se hse
  cases stage with
  | inserting | reading | readingLast | computing => exact absurd hs.2 hnone
  | committing id =>
    obtain ⟨event, -, -, hopen⟩ := hs
    exact absurd hopen hnone
  | stored id =>
    obtain ⟨event, hop, -, hmem⟩ := hs
    rw [hone.eq hse hmem]
    exact hop

/-- What a stage comes to, in the state that it leaves. -/
structure StageDone (k m transaction : ℕ) (op : Operation β) (db : Database)
    (out : (QueryStage β ⊕ Result) × Database) : Prop where
  sound : out.2.Sound m
  advances : Advances transaction db out.2
  stage : ∀ stage, out.1 = .inl stage → out.2.Account readInt loads transaction op stage ∧
    (k ≤ transaction → out.2.Moment m op stage)
  result : ∀ result, out.1 = .inr result → out.2.AccountOver transaction op (some result) ∧
    (k ≤ transaction → out.2.Explains readInt loads m op result)

variable {k : ℕ} {readInt loads}

theorem stageDone_inl (hsound : db'.Sound m) (hadvances : Advances transaction db db')
    (haccount : db'.Account readInt loads transaction op stage)
    (hmoment : k ≤ transaction → db'.Moment m op stage) :
    StageDone readInt loads k m transaction op db (.inl stage, db') :=
  ⟨hsound, hadvances, fun _ h => Sum.inl.inj h ▸ ⟨haccount, hmoment⟩, fun _ h =>
    absurd h Sum.inl_ne_inr⟩

theorem stageDone_inr (hsound : db'.Sound m) (hadvances : Advances transaction db db')
    (haccount : db'.AccountOver transaction op (some result))
    (hexplains : k ≤ transaction → db'.Explains readInt loads m op result) :
    StageDone readInt loads k m transaction op db (.inr result, db') :=
  ⟨hsound, hadvances, fun _ h => absurd h Sum.inr_ne_inl, fun _ h =>
    Sum.inr.inj h ▸ ⟨haccount, hexplains⟩⟩

theorem stageDone_inserting {event : Event} (hdb : db.Sound m)
    (hopen : db.HasOpen transaction []) :
    StageDone readInt loads k m transaction (.append event) db
      ((endpoints readInt loads).advance transaction (.inserting event) db) := by
  cases hstore : (db.repo.store event).1 with
  | ok id =>
    have hadvance : (endpoints readInt loads).advance transaction (.inserting event) db =
        (.inl (.committing db.nextval), db.hold transaction event) := by
      simp only [endpoints, insert_of_ok hstore]
    have hadvances : Advances transaction db (db.hold transaction event) :=
      advances_hold db event
    have htakes : (db.hold transaction event).Takes event :=
      hadvances.takes.mpr (takes_iff.mpr ⟨id, hstore⟩)
    rw [hadvance]
    exact stageDone_inl ⟨hdb.oneEach, hdb.moments⟩ hadvances
      ⟨event, rfl, htakes, hopen.hold event⟩ fun _ => trivial
  | error e =>
    have hadvance : (endpoints readInt loads).advance transaction (.inserting event) db =
        (.inr (.ofStore (.error e)), db.skip event) := by
      simp only [endpoints, insert_of_error hstore]
    have hadvances : Advances transaction db (db.skip event) := advances_skip db event
    have hskip : (db.skip event).HasOpen transaction [] := hopen
    rw [hadvance]
    refine stageDone_inr ⟨hdb.oneEach, hdb.moments⟩ hadvances
      (hskip.accountOver (by simp [Result.ofStore])) fun _ => .inr ⟨fun htakes => ?_, _, rfl⟩
    obtain ⟨id, hid⟩ := takes_iff.mp (hadvances.takes.mp htakes)
    simp [hstore] at hid

theorem stageDone_committing {event : Event} {id : ℤ} (hdb : db.Sound m)
    (htakes : db.Takes event) (hopen : db.HasOpen transaction [(transaction, ⟨id, event⟩)]) :
    StageDone readInt loads k m transaction (.append event) db
      ((endpoints readInt loads).advance transaction (.committing id) db) := by
  obtain ⟨hcommits, hcommitted⟩ := hopen.commit
  have hadvance : (endpoints readInt loads).advance transaction (.committing id) db =
      (.inl (.stored id), db.commit transaction) := rfl
  have hadvances : Advances transaction db (db.commit transaction) := advances_commit db
  rw [hadvance]
  refine stageDone_inl ⟨?_, hdb.moments.trans hadvances.committed.length_le⟩ hadvances
    ⟨event, rfl, hadvances.takes.mpr htakes, ?_⟩ fun _ => ?_
  · rw [OneEach, hcommits, List.map_append, List.map_singleton]
    refine List.nodup_append.mpr ⟨hdb.oneEach, List.nodup_singleton _, fun i hi j hj heq => ?_⟩
    rw [heq, List.mem_singleton.mp hj] at hi
    exact hopen.1 hi
  · rw [hcommits]
    exact List.mem_append_right _ (List.mem_singleton.mpr rfl)
  -- the moment of a post is that of its commit
  · refine ⟨event, db.committed.length, rfl, hdb.moments, ?_⟩
    rw [hcommitted]
    exact List.getElem?_concat_length

theorem stageDone_stored {event : Event} {id : ℤ} (hdb : db.Sound m) (htakes : db.Takes event)
    (hmem : (transaction, ⟨id, event⟩) ∈ db.commits)
    (hmoment : k ≤ transaction →
      db.Moment m (.append event : Operation β) (.stored id : QueryStage β)) :
    StageDone readInt loads k m transaction (.append event) db
      ((endpoints readInt loads).advance transaction (.stored id) db) := by
  have hadvance : (endpoints readInt loads).advance transaction (.stored id) db =
      (.inr (.created id), db) := rfl
  rw [hadvance]
  refine stageDone_inr hdb (advances_refl db) ⟨fun se hse => ?_, ?_⟩ fun hk => ?_
  · rw [hdb.oneEach.eq hse hmem]
  · rintro r ⟨⟩ id'
    constructor
    · intro hcreated
      exact ⟨event, Result.created.inj hcreated ▸ hmem⟩
    · rintro ⟨event', hevent'⟩
      exact congrArg (fun se : StoredEvent => Result.created se.id) (hdb.oneEach.eq hmem hevent')
  · obtain ⟨event', i, hop, hm, hi⟩ := hmoment hk
    obtain rfl := Operation.append.inj hop
    exact .inl ⟨htakes, id, i, rfl, hm, hi⟩

/-- A read answers without a row. -/
theorem HasOpen.stageDone_ofRead {outcome : Except PyException ReadBody}
    (hopen : db.HasOpen transaction []) (hdb : db.Sound m)
    (hexplains : k ≤ transaction → db.Explains readInt loads m op (.ofRead outcome)) :
    StageDone readInt loads k m transaction op db (.inr (.ofRead outcome), db) := by
  refine stageDone_inr hdb (advances_refl db) (hopen.accountOver ?_) hexplains
  rintro r ⟨⟩ id
  exact Result.ofRead_ne_created _ id

theorem stageDone_reading {call : ReadCall} {vtf : Option (Upstream β)} (hdb : db.Sound m)
    (hopen : db.HasOpen transaction []) :
    StageDone readInt loads k m transaction (.read call vtf) db
      ((endpoints readInt loads).advance transaction (.reading call vtf) db) := by
  have hadvance : (endpoints readInt loads).advance transaction (.reading call vtf) db =
      (call.begin readInt loads db.table vtf, db) := rfl
  rw [hadvance]
  obtain h | ⟨kind, id, rfl, hfound, h⟩ | ⟨strategy, rfl, hknown, h⟩ :=
    call.begin_cases readInt loads db.table vtf
  · rw [h]
    exact hopen.stageDone_ofRead hdb fun _ => explains_read readInt loads call vtf hdb.moments
  · rw [h]
    refine stageDone_inl hdb (advances_refl db) ⟨⟨vtf, rfl, rfl⟩, hopen⟩ fun _ =>
      ⟨db.committed.length, hdb.moments, le_rfl, ?_⟩
    rw [db.snapshot_length]
    exact ⟨rfl, hfound⟩
  · rw [h]
    refine stageDone_inl hdb (advances_refl db) ⟨⟨vtf, rfl⟩, hopen⟩ fun _ =>
      ⟨db.committed.length, hdb.moments, le_rfl, ?_⟩
    rwa [db.snapshot_length]

theorem stageDone_readingLast {kind : ResourceKind} {id : String} {count : ℕ}
    {vtf : Option (Upstream β)} (hdb : db.Sound m) (hopen : db.HasOpen transaction [])
    (hmoment : k ≤ transaction → db.Moment m (.read (.getResource kind id) vtf : Operation β)
      (.readingLast kind id (kind.fetch readInt loads vtf) count : QueryStage β)) :
    StageDone readInt loads k m transaction (.read (.getResource kind id) vtf) db
      ((endpoints readInt loads).advance transaction
        (.readingLast kind id (kind.fetch readInt loads vtf) count) db) := by
  have hadvance : (endpoints readInt loads).advance transaction
      (.readingLast kind id (kind.fetch readInt loads vtf) count) db =
        (.inr (.ofRead ((kind.respond id (kind.fetch readInt loads vtf) count
          (kind.findLast db.table.repo id)).map (.resource kind))), db) := rfl
  rw [hadvance]
  refine hopen.stageDone_ofRead hdb fun hk => ?_
  obtain ⟨i, hm, hi, rfl, hfound⟩ := hmoment hk
  exact explains_readLast readInt loads vtf hm hi hfound

theorem stageDone_computing {strategy : CostAggregationStrategy} {vtf : Option (Upstream β)}
    (hdb : db.Sound m) (hopen : db.HasOpen transaction [])
    (hmoment : k ≤ transaction → db.Moment m (.read strategy.call vtf : Operation β)
      (.computing strategy : QueryStage β)) :
    StageDone readInt loads k m transaction (.read strategy.call vtf) db
      ((endpoints readInt loads).advance transaction (.computing strategy) db) := by
  have hadvance : (endpoints readInt loads).advance transaction (.computing strategy) db =
      (.inr (.ofRead ((CostAggregationStrategy.answer (strategy.compute db.table.repo)).map
        strategy.body)), db) := rfl
  rw [hadvance]
  refine hopen.stageDone_ofRead hdb fun hk => ?_
  obtain ⟨i, hm, hi, hknown⟩ := hmoment hk
  exact explains_cost readInt loads vtf hm hi hknown

/-- **A stage**, whatever it is. -/
theorem stageDone (hdb : db.Sound m) (haccount : db.Account readInt loads transaction op stage)
    (hmoment : k ≤ transaction → db.Moment m op stage) :
    StageDone readInt loads k m transaction op db
      ((endpoints readInt loads).advance transaction stage db) := by
  cases stage with
  | inserting event =>
    obtain ⟨rfl, hopen⟩ := haccount
    exact stageDone_inserting hdb hopen
  | committing id =>
    obtain ⟨event, rfl, htakes, hopen⟩ := haccount
    exact stageDone_committing hdb htakes hopen
  | stored id =>
    obtain ⟨event, rfl, htakes, hmem⟩ := haccount
    exact stageDone_stored hdb htakes hmem hmoment
  | reading call vtf =>
    obtain ⟨rfl, hopen⟩ := haccount
    exact stageDone_reading hdb hopen
  | readingLast kind id metadata count =>
    obtain ⟨⟨vtf, rfl, rfl⟩, hopen⟩ := haccount
    exact stageDone_readingLast hdb hopen hmoment
  | computing strategy =>
    obtain ⟨⟨vtf, rfl⟩, hopen⟩ := haccount
    exact stageDone_computing hdb hopen hmoment

variable (readInt loads) in
/-- **The endpoints among each other.** The moments are counted for the requests from number `k`
on, as from the `m`-th commit. -/
def interference (k m : ℕ) : RelyGuarantee (endpoints readInt loads) (Operation β) where
  Inv db := db.Sound m
  Before transaction op stage db := db.Account readInt loads transaction op stage ∧
    (k ≤ transaction → db.Moment m op stage)
  After transaction op result db := db.AccountOver transaction op result ∧
    (k ≤ transaction → ∀ r ∈ result, db.Explains readInt loads m op r)
  Guarantee := Advances
  Traced transaction db := ¬ db.HasOpen transaction []
  advance hdb hbefore := by
    obtain ⟨hsound, hadvances, hstage, hresult⟩ := stageDone hdb hbefore.1 hbefore.2
    refine ⟨hsound, hadvances, hstage, fun r hr => ⟨(hresult r hr).1, fun hk r' hr' => ?_⟩⟩
    obtain rfl := Option.some.inj hr'
    exact (hresult r hr).2 hk
  breakOff {n _ _ s} hdb hbefore := by
    have hadvances : Advances n s (s.rollback n) := advances_rollback s
    have hnone : ∀ r : Result, r ∉ (none : Option Result) := fun r => Option.not_mem_none r
    exact ⟨⟨hdb.oneEach, hdb.moments⟩, hadvances,
      ⟨hbefore.1.posted readInt loads hdb.oneEach, fun r hr => absurd hr (hnone r)⟩,
      fun _ r hr => absurd hr (hnone r)⟩
  before_stable hne hadvances hbefore :=
    ⟨hadvances.account readInt loads hne hbefore.1, fun hk =>
      (hbefore.2 hk).extend hadvances.committed⟩
  after_stable hne hadvances hafter :=
    ⟨hadvances.accountOver hne hafter.1, fun hk r hr =>
      (hafter.2 hk r hr).extend readInt loads hadvances.committed fun _ => hadvances.takes⟩
  traced_of_guarantee hne hadvances htraced hopen :=
    htraced ((hadvances.hasOpen hne).mpr hopen)

end Database

end

end Vfobs
