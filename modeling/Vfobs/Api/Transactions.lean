import Vfobs.Api.Backends
import Vfobs.Foundations.TaskPool

/-!
# The endpoints, one query at a time

Over Postgres an endpoint is suspended at each of its queries, and each query is a transaction of
its own, or the whole of one. `Database` is the table among the transactions of any number of
requests; a row bears the number of its transaction, which is that of the request that has made
it. `endpoints` is the machine whose stages are the stretches between two suspensions: the
`INSERT` of `store`, its commit and its response, and the queries of the reads.

An operation that runs alone does what `perform` does (`alone_perform`).
-/

namespace Vfobs

open TaskPool

/-- The rows have ids of their own, and all have been given out. -/
def Numbered (nextval : ℤ) (rows : List StoredEvent) : Prop :=
  (rows.map StoredEvent.id).Nodup ∧ ∀ se ∈ rows, se.id < nextval

namespace Numbered

variable {nextval nextval' : ℤ} {rows rows' : List StoredEvent}

theorem perm (h : Numbered nextval rows) (hperm : rows.Perm rows') : Numbered nextval rows' :=
  ⟨(hperm.map _).nodup_iff.mp h.1, fun se hse => h.2 se (hperm.mem_iff.mpr hse)⟩

theorem sublist (h : Numbered nextval rows) (hsub : rows'.Sublist rows) : Numbered nextval rows' :=
  ⟨h.1.sublist (hsub.map _), fun se hse => h.2 se (hsub.subset hse)⟩

theorem mono (h : Numbered nextval rows) (hle : nextval ≤ nextval') : Numbered nextval' rows :=
  ⟨h.1, fun se hse => (h.2 se hse).trans_le hle⟩

/-- The next row. -/
theorem concat (h : Numbered nextval rows) (event : Event) :
    Numbered (nextval + 1) (rows ++ [⟨nextval, event⟩]) := by
  constructor
  · rw [List.map_append, List.map_singleton, List.nodup_append]
    refine ⟨h.1, List.nodup_singleton _, fun i hi j hj => ?_⟩
    obtain ⟨se, hse, rfl⟩ := List.mem_map.mp hi
    rw [List.mem_singleton.mp hj]
    exact (h.2 se hse).ne
  · intro se hse
    rcases List.mem_append.mp hse with hse | hse
    · exact (h.2 se hse).trans (Int.lt_succ _)
    · rw [List.mem_singleton.mp hse]
      exact Int.lt_succ _

end Numbered

/-- The database, among transactions. -/
structure Database where
  partitions : List Partition
  nextval : ℤ
  /-- The rows from before the first transaction. -/
  before : List StoredEvent
  /-- The rows that were committed since, in the order of their commits. -/
  commits : List (ℕ × StoredEvent)
  /-- The rows of the transactions that are open. -/
  opened : List (ℕ × StoredEvent)
  numbered : Numbered nextval (before ++ (commits ++ opened).map Prod.snd)

namespace Database

variable (db : Database) (transaction : ℕ)

/-- The rows that are committed, in the order of their commits. -/
def committed : List StoredEvent := db.before ++ db.commits.map Prod.snd

theorem numbered_committed : Numbered db.nextval db.committed := by
  refine db.numbered.sublist ?_
  rw [committed, List.map_append, ← List.append_assoc]
  exact List.sublist_append_left _ _

/-- The table once `n` rows were committed. -/
def snapshot (n : ℕ) : CommittedTable :=
  ⟨db.committed.take n, (db.numbered_committed.sublist (List.take_sublist _ _)).1⟩

/-- The table as a query sees it. -/
def table : CommittedTable := ⟨db.committed, db.numbered_committed.1⟩

theorem snapshot_length : db.snapshot db.committed.length = db.table :=
  Subtype.ext (List.take_length ..)

/-- The database as one who is alone with it has it. -/
def repo : PostgresEventRepository :=
  { db.table.repo with partitions := db.partitions, nextval := db.nextval }

/-- The sequence does not go back. -/
theorem nextval_le_store (pg : PostgresEventRepository) (event : Event) :
    pg.nextval ≤ (pg.store event).2.nextval := by
  rw [PostgresEventRepository.store]
  split_ifs <;> simp

/-- The row of a transaction, with the next id. -/
def hold (event : Event) : Database where
  partitions := db.partitions
  nextval := db.nextval + 1
  before := db.before
  commits := db.commits
  opened := db.opened ++ [(transaction, ⟨db.nextval, event⟩)]
  numbered := by
    have hrows := db.numbered.concat event
    rwa [List.append_assoc, ← List.map_singleton (f := Prod.snd) (a := (transaction, _)),
      ← List.map_append, List.append_assoc] at hrows

/-- An `INSERT` that fails leaves a gap in the sequence at most. -/
def skip (event : Event) : Database :=
  { db with
    nextval := (db.repo.store event).2.nextval
    numbered := db.numbered.mono (nextval_le_store db.repo event) }

/-- The `INSERT` of `store`, before its commit. -/
def insert (event : Event) : Except RepositoryError ℤ × Database :=
  match (db.repo.store event).1 with
  | .ok id => (.ok id, db.hold transaction event)
  | .error e => (.error e, db.skip event)

/-- The commit of a transaction. -/
def commit : Database where
  partitions := db.partitions
  nextval := db.nextval
  before := db.before
  commits := db.commits ++ db.opened.filter fun row => row.1 = transaction
  opened := db.opened.filter fun row => row.1 ≠ transaction
  numbered := by
    refine db.numbered.perm ((List.Perm.map _ ?_).append_left _)
    rw [List.append_assoc]
    refine List.Perm.append_left _ ?_
    simpa using (List.filter_append_perm (fun row : ℕ × StoredEvent => row.1 = transaction)
      db.opened).symm

/-- The end of a transaction without a commit. -/
def rollback : Database where
  partitions := db.partitions
  nextval := db.nextval
  before := db.before
  commits := db.commits
  opened := db.opened.filter fun row => row.1 ≠ transaction
  numbered := db.numbered.sublist
    (((List.Sublist.append_left List.filter_sublist _).map _).append_left _)

end Database

/-! ### The stages -/

/-- What a request does next with the database. -/
inductive QueryStage (β : Type)
  /-- The `INSERT` of `store`. -/
  | inserting (event : Event)
  /-- Its commit. -/
  | committing (id : ℤ)
  /-- The response of a post. -/
  | stored (id : ℤ)
  /-- The first query of a read. -/
  | reading (call : ReadCall) (vtf : Option (Upstream β))
  /-- The query for the last event of a resource. -/
  | readingLast (kind : ResourceKind) (id : String) (metadata : Option kind.Metadata) (count : ℕ)
  /-- The query of `compute`. -/
  | computing (strategy : CostAggregationStrategy)

/-- The response of a cost endpoint. -/
def CostAggregationStrategy.body : CostAggregationStrategy → CostSummary → ReadBody
  | byWorkgraph workgraphId, summary => .workgraphCost { workgraphId, summary }
  | byAgent agentId, summary => .agentCost { agentId, summary }

/-- The call of a cost endpoint. -/
def CostAggregationStrategy.call : CostAggregationStrategy → ReadCall
  | byWorkgraph workgraphId => .workgraphCost workgraphId
  | byAgent agentId => .agentCost agentId

section machine

variable {β : Type} (readInt : String → Except String ℤ) (loads : β → Except PyException Json)

/-- The query of `exists`. -/
def CostAggregationStrategy.check (strategy : CostAggregationStrategy) (table : CommittedTable) :
    QueryStage β ⊕ Result :=
  match gate (strategy.scopeExists table.repo) with
  | .ok () => .inl (.computing strategy)
  | .error e => .inr (.ofRead (.error e))

/-- The first query of an endpoint. -/
def ReadCall.begin (table : CommittedTable) (vtf : Option (Upstream β)) :
    ReadCall → QueryStage β ⊕ Result
  | .getResource kind id =>
    let metadata := kind.fetch readInt loads vtf
    let count := kind.count table.repo id
    match kind.checkFound metadata count with
    | .ok () => .inl (.readingLast kind id metadata count)
    | .error e => .inr (.ofRead (.error e))
  | .workgraphCost w => (CostAggregationStrategy.byWorkgraph w).check table
  | .agentCost a => (CostAggregationStrategy.byAgent a).check table
  -- the other endpoints make one query
  | call => .inr (.ofRead (serveCall readInt loads table.repo vtf call))

/-- The endpoints, with a suspension after each stage. -/
def endpoints : Machine Database (QueryStage β) Result where
  advance transaction stage db :=
    match stage with
    | .inserting event =>
      match db.insert transaction event with
      | (.ok id, db) => (.inl (.committing id), db)
      | (.error e, db) => (.inr (.ofStore (.error e)), db)
    | .committing id => (.inl (.stored id), db.commit transaction)
    | .stored id => (.inr (.created id), db)
    | .reading call vtf => (call.begin readInt loads db.table vtf, db)
    | .readingLast kind id metadata count =>
      (.inr (.ofRead ((kind.respond id metadata count (kind.findLast db.table.repo id)).map
        (.resource kind))), db)
    | .computing strategy =>
      (.inr (.ofRead ((CostAggregationStrategy.answer (strategy.compute db.table.repo)).map
        strategy.body)), db)
  -- the connection is lost, and its transaction with it
  breakOff transaction _ db := db.rollback transaction

/-- What an operation begins with. -/
def Operation.enter : Operation β → QueryStage β ⊕ Option Result
  | .append event => .inl (.inserting event)
  | .read call vtf => .inl (.reading call vtf)
  | .fail failure => .inr (some (.failed failure))

/-! ### Alone -/

theorem CostAggregationStrategy.serveCall_call {ρ : Type} [EventRepository ρ] (repo : ρ)
    (vtf : Option (Upstream β)) (strategy : CostAggregationStrategy) :
    serveCall readInt loads repo vtf strategy.call =
      (strategy.run repo repo).map strategy.body := by
  cases strategy with
  | byWorkgraph w => exact serveCall_workgraphCost readInt loads repo vtf w
  | byAgent a => exact serveCall_agentCost readInt loads repo vtf a

/-- Reads look at the rows only. -/
theorem Database.serveCall_repo (db : Database) (vtf : Option (Upstream β)) (call : ReadCall) :
    serveCall readInt loads db.repo vtf call = serveCall readInt loads db.table.repo vtf call := by
  cases call with
  | getResource kind id => cases kind <;> rfl
  | getTaskEvents | listEvents | workgraphCost | agentCost => rfl

/-- What the query of `exists` leads to. -/
theorem CostAggregationStrategy.check_cases (strategy : CostAggregationStrategy)
    (table : CommittedTable) (vtf : Option (Upstream β)) :
    strategy.check table =
        (.inr (.ofRead (serveCall readInt loads table.repo vtf strategy.call)) :
          QueryStage β ⊕ Result) ∨
      CostRead.Known strategy table ∧
        strategy.check table = (.inl (.computing strategy) : QueryStage β ⊕ Result) := by
  rw [check, CostRead.scopeExists_repo, serveCall_call, CostRead.run_repo]
  by_cases hknown : CostRead.Known strategy table
  · rw [decide_eq_true hknown]
    exact .inr ⟨hknown, rfl⟩
  · rw [decide_eq_false hknown, if_neg hknown]
    exact .inl rfl

/-- **What the first query of an endpoint leads to**: the response that one moment of the table
gives, or a second query. -/
theorem ReadCall.begin_cases (table : CommittedTable) (vtf : Option (Upstream β))
    (call : ReadCall) :
    call.begin readInt loads table vtf =
        .inr (.ofRead (serveCall readInt loads table.repo vtf call)) ∨
      (∃ kind id, call = .getResource kind id ∧
        kind.checkFound (kind.fetch readInt loads vtf) (kind.count table.repo id) = .ok () ∧
        call.begin readInt loads table vtf = .inl (.readingLast kind id
          (kind.fetch readInt loads vtf) (kind.count table.repo id))) ∨
      ∃ strategy, call = strategy.call ∧ CostRead.Known strategy table ∧
        call.begin readInt loads table vtf = .inl (.computing strategy) := by
  cases call with
  | getResource kind id =>
    cases hfound : kind.checkFound (kind.fetch readInt loads vtf) (kind.count table.repo id) with
    | ok =>
      refine .inr (.inl ⟨kind, id, rfl, hfound, ?_⟩)
      simp only [begin, hfound]
    | error e =>
      refine .inl ?_
      simp only [begin, hfound, serveCall, ResourceKind.get, ResourceKind.read]
      rfl
  | getTaskEvents | listEvents => exact .inl rfl
  | workgraphCost w =>
    obtain h | ⟨hknown, h⟩ :=
      (CostAggregationStrategy.byWorkgraph w).check_cases readInt loads table vtf
    · exact .inl h
    · exact .inr (.inr ⟨_, rfl, hknown, h⟩)
  | agentCost a =>
    obtain h | ⟨hknown, h⟩ :=
      (CostAggregationStrategy.byAgent a).check_cases readInt loads table vtf
    · exact .inl h
    · exact .inr (.inr ⟨_, rfl, hknown, h⟩)

/-- The second query of a resource. -/
theorem ResourceKind.respond_eq_read {kind : ResourceKind} {id : String}
    {metadata : Option kind.Metadata} {first second : CommittedTable}
    (hfound : kind.checkFound metadata (kind.count first.repo id) = .ok ()) :
    kind.respond id metadata (kind.count first.repo id) (kind.findLast second.repo id) =
      kind.read id metadata first.repo second.repo := by
  rw [read, hfound]
  rfl

/-- The second query of a cost. -/
theorem CostAggregationStrategy.answer_eq_serveCall {strategy : CostAggregationStrategy}
    {table : CommittedTable} (hknown : CostRead.Known strategy table)
    (vtf : Option (Upstream β)) :
    (answer (strategy.compute table.repo)).map strategy.body =
      serveCall readInt loads table.repo vtf strategy.call := by
  rw [serveCall_call, CostRead.run_repo, if_pos hknown]

/-- The rows that a transaction has open. -/
def Database.openedBy (db : Database) (transaction : ℕ) : List (ℕ × StoredEvent) :=
  db.opened.filter fun row => row.1 = transaction

variable {db : Database} {transaction : ℕ}

/-- A store that succeeds. -/
theorem PostgresEventRepository.store_of_ok {pg : PostgresEventRepository} {event : Event} {id : ℤ}
    (h : (pg.store event).1 = .ok id) :
    pg.store event = (.ok pg.nextval, { pg with
      rows := pg.rows ++ [storedToRow ⟨pg.nextval, event⟩]
      nextval := pg.nextval + 1 }) := by
  rw [store] at h ⊢
  split_ifs at h ⊢
  rfl

/-- A store that fails. -/
theorem PostgresEventRepository.store_of_error {pg : PostgresEventRepository} {event : Event}
    {e : RepositoryError} (h : (pg.store event).1 = .error e) :
    (pg.store event).2 = { pg with nextval := (pg.store event).2.nextval } := by
  rw [store] at h ⊢
  split_ifs at h ⊢ <;> rfl

namespace Database

theorem insert_of_ok {event : Event} {id : ℤ} (h : (db.repo.store event).1 = .ok id) :
    db.insert transaction event = (.ok db.nextval, db.hold transaction event) := by
  have hid : db.nextval = id :=
    Except.ok.inj ((congrArg Prod.fst (PostgresEventRepository.store_of_ok h)).symm.trans h)
  rw [insert, h, hid]

theorem insert_of_error {event : Event} {e : RepositoryError}
    (h : (db.repo.store event).1 = .error e) :
    db.insert transaction event = (.error e, db.skip event) := by
  rw [insert, h]

theorem openedBy_hold (event : Event) : (db.hold transaction event).openedBy transaction =
    db.openedBy transaction ++ [(transaction, ⟨db.nextval, event⟩)] := by
  simp [openedBy, hold]

theorem committed_commit : (db.commit transaction).committed =
    db.committed ++ (db.openedBy transaction).map Prod.snd := by
  rw [committed, committed, List.append_assoc, ← List.map_append]
  rfl

/-- An `INSERT` and its commit, with nothing in between. -/
theorem repo_commit_hold (event : Event) (hdb : db.openedBy transaction = []) :
    ((db.hold transaction event).commit transaction).repo = { db.repo with
      rows := db.repo.rows ++ [storedToRow ⟨db.nextval, event⟩]
      nextval := db.nextval + 1 } := by
  have hrows : ((db.hold transaction event).commit transaction).committed.map storedToRow =
      db.committed.map storedToRow ++ [storedToRow ⟨db.nextval, event⟩] := by
    rw [committed_commit, openedBy_hold, hdb, List.map_append]
    rfl
  exact congrArg (fun rows => (⟨db.partitions, rows, db.nextval + 1⟩ : PostgresEventRepository))
    hrows

end Database

/-- **An operation alone is `perform`.** Whatever other transactions are open, an operation that
nobody interrupts has the result that it has on the whole, and leaves the table as that does. -/
theorem alone_perform {op : Operation β} {stage : QueryStage β}
    (hstage : op.enter = .inl stage) (hdb : db.openedBy transaction = []) :
    ∃ result db', Alone (endpoints readInt loads) transaction stage db result db' ∧
      perform readInt loads db.repo op = (result, db'.repo) := by
  cases op with
  | append event =>
    obtain rfl := Sum.inl.inj hstage
    cases hstore : (db.repo.store event).1 with
    | ok id =>
      set held := db.hold transaction event with hheld
      have hinsert : (endpoints readInt loads).advance transaction (.inserting event) db =
          (.inl (.committing db.nextval), held) := by
        simp only [endpoints, Database.insert_of_ok hstore, hheld]
      have hcommit : (endpoints readInt loads).advance transaction (.committing db.nextval) held =
          (.inl (.stored db.nextval), held.commit transaction) := rfl
      refine ⟨.created db.nextval, held.commit transaction,
        .next hinsert (.next hcommit (.done rfl)), ?_⟩
      rw [hheld, Database.repo_commit_hold event hdb]
      exact congrArg (fun (outcome, pg) => (Result.ofStore outcome, pg))
        (PostgresEventRepository.store_of_ok hstore)
    | error e =>
      refine ⟨.ofStore (.error e), db.skip event, .done ?_, ?_⟩
      · simp only [endpoints, Database.insert_of_error hstore]
      · exact Prod.ext (congrArg Result.ofStore hstore)
          (PostgresEventRepository.store_of_error hstore)
  | read call vtf =>
    obtain rfl := Sum.inl.inj hstage
    refine ⟨.ofRead (serveCall readInt loads db.repo vtf call), db, ?_, rfl⟩
    rw [db.serveCall_repo]
    obtain h | ⟨kind, id, rfl, hfound, h⟩ | ⟨strategy, rfl, hknown, h⟩ :=
      call.begin_cases readInt loads db.table vtf
    · exact .done (congrArg (·, db) h)
    · refine .next (congrArg (·, db) h) (.done ?_)
      simp only [endpoints, ResourceKind.respond_eq_read hfound]
      rfl
    · refine .next (congrArg (·, db) h) (.done ?_)
      simp only [endpoints,
        CostAggregationStrategy.answer_eq_serveCall readInt loads hknown vtf]
  | fail failure => exact nomatch hstage

end machine

end Vfobs
