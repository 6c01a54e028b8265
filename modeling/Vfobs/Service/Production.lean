import Vfobs.Api.Interference
import Vfobs.Service.Isolation

/-!
# The application over Postgres

In production the repository is the database, and requests are suspended at each of their queries.
`Production` is the application with all of that. Its `front` is the service as far as the
repository: the requests that it has served are those that have come to their operations, each with
its operation. From there on a request is a task of the pool, which takes its stages in turn, with
any other requests in between, until it is answered or its connection fails.

The ids of events are not in the order of their commits, so that the table is no log. Still
every answer is that of a moment of the table during the request, but for resources, whose two
queries may meet two (`responses_have_moments`); what is stored is what was posted, once each, and
known to whoever has been answered (`commits_are_posts`); and no request is in the way of another
(`answered_over_postgres`).
-/

namespace Vfobs

open StepSystem TaskPool

/-- What the front has for a repository: what is asked of it is put off. -/
inductive Deferred
  | deferred

instance : EventRepository Deferred where
  findByWorkgraph _ _ _ _ := .ok []
  findByTask _ _ _ _ := .ok []
  findFiltered _ _ _ _ := .ok []
  findLastByWorkgraph _ _ := .ok none
  findLastByTask _ _ := .ok none
  countByWorkgraph _ _ := 0
  countByTask _ _ := 0
  costSummary _ _ _ := .error .validationError

instance : EventStore Deferred where
  store repo _ := (.error .validationError, repo)

/-- The application and its database. -/
structure Production (β : Type) where
  front : Service Deferred β
  pool : Pool Database (Operation β) (QueryStage β) Result

namespace Production

/-- What happens next. -/
inductive Action (β : Type)
  /-- Something happens that has nothing to do with the database. -/
  | front (a : Service.Action β)
  /-- A request goes on to its next query or its response. -/
  | proceed (number : ℕ)
  /-- The connection of a request fails. -/
  | abort (number : ℕ)

section

variable {β : Type}

/-- The application has started. -/
def init (app : AppState) (db : Database) (ttl clock : ℚ) : Production β where
  front := .init app .deferred ttl clock
  pool := { shared := db }

/-- The database. -/
abbrev db (s : Production β) : Database := s.pool.shared

/-- The requests that come to their operations begin with them. -/
def handOver (pool : Pool Database (Operation β) (QueryStage β) Result)
    (served : List (Served β)) : Pool Database (Operation β) (QueryStage β) Result :=
  served.foldl (fun pool r => pool.settle r.number r.op r.op.enter) pool

variable (hashPrefix : String → String) (readInt : String → Except String ℤ)
  (loads : β → Except PyException Json)

/-- One uninterrupted stretch; `none` where it cannot happen. -/
def step (s : Production β) : Action β → Option (Production β)
  | .front a => (s.front.step hashPrefix readInt loads a).map fun front =>
      { front, pool := handOver s.pool (front.served.drop s.front.served.length) }
  | .proceed number => ((endpoints readInt loads).proceed s.pool number).map fun pool =>
      { s with pool }
  | .abort number => ((endpoints readInt loads).abort s.pool number).map fun pool =>
      { s with pool }

/-- Everything a step can do. -/
inductive Effect (s : Production β) : Action β → Production β → Prop
  | waits {a : Service.Action β} {front : Service Deferred β}
      (h : s.front.step hashPrefix readInt loads a = some front)
      (hserved : front.served = s.front.served) : Effect s (.front a) { s with front }
  | enters {a : Service.Action β} {front : Service Deferred β} {r : Served β}
      (h : s.front.step hashPrefix readInt loads a = some front)
      (hserved : front.served = s.front.served ++ [r]) :
      Effect s (.front a) { front, pool := s.pool.settle r.number r.op r.op.enter }
  | proceeds {number : ℕ} {pool : Pool Database (Operation β) (QueryStage β) Result}
      (h : (endpoints readInt loads).proceed s.pool number = some pool) :
      Effect s (.proceed number) { s with pool }
  | aborts {number : ℕ} {pool : Pool Database (Operation β) (QueryStage β) Result}
      (h : (endpoints readInt loads).abort s.pool number = some pool) :
      Effect s (.abort number) { s with pool }

variable {hashPrefix readInt loads} {s s' : Production β} {a : Action β}

/-- **The inversion lemma.** -/
theorem step_effect (h : s.step hashPrefix readInt loads a = some s') :
    Effect hashPrefix readInt loads s a s' := by
  cases a with
  | front a =>
    obtain ⟨front, hfront, rfl⟩ := Option.map_eq_some_iff.mp h
    obtain ⟨-, hserved⟩ | ⟨number, op, -, hserved⟩ := Service.serves_of_step hfront
    · rw [hserved, List.drop_length]
      exact .waits hfront hserved
    · rw [hserved, List.drop_left]
      exact .enters hfront hserved
  | proceed number =>
    obtain ⟨pool, hpool, rfl⟩ := Option.map_eq_some_iff.mp h
    exact .proceeds hpool
  | abort number =>
    obtain ⟨pool, hpool, rfl⟩ := Option.map_eq_some_iff.mp h
    exact .aborts hpool

/-- The tasks of the pool are the requests that have come to their operations. -/
structure Linked (s : Production β) : Prop where
  settled : s.front.Settled
  goals : s.pool.goals.Perm (s.front.served.map fun r => (r.number, r.op))

theorem Linked.numbers (hs : s.Linked) :
    s.pool.numbers.Perm (s.front.served.map Served.number) := by
  have hmap := hs.goals.map Prod.fst
  rwa [← Pool.numbers_eq, List.map_map] at hmap

theorem Linked.nodup (hs : s.Linked) : s.pool.numbers.Nodup :=
  hs.numbers.nodup_iff.mpr hs.settled.nodup.of_append_right

/-- A request that comes to its operation is new to the pool. -/
theorem Linked.notMem (hs : s.Linked) {front : Service Deferred β} {r : Served β}
    (hfront : front.Settled) (hserved : front.served = s.front.served ++ [r]) :
    r.number ∉ s.pool.numbers := by
  have hnodup : (front.served.map Served.number).Nodup := hfront.nodup.of_append_right
  rw [hserved, List.map_append, List.map_singleton] at hnodup
  intro hmem
  exact (List.nodup_append.mp hnodup).2.2 _ (hs.numbers.mem_iff.mp hmem) _
    (List.mem_singleton.mpr rfl) rfl

theorem Linked.step (hs : s.Linked) (h : s.step hashPrefix readInt loads a = some s') :
    s'.Linked := by
  cases step_effect h with
  | waits hfront hserved => exact ⟨hs.settled.step hfront, by rw [hserved]; exact hs.goals⟩
  | enters hfront hserved =>
    refine ⟨hs.settled.step hfront, ?_⟩
    rw [hserved, List.map_append]
    exact (Pool.goals_settle _).trans
      ((hs.goals.cons _).trans (List.perm_append_singleton _ _).symm)
  | proceeds hpool => exact ⟨hs.settled, (Pool.goals_proceed hs.nodup hpool).trans hs.goals⟩
  | aborts hpool => exact ⟨hs.settled, (Pool.goals_abort hs.nodup hpool).trans hs.goals⟩

theorem linked_init (app : AppState) (db : Database) (ttl clock : ℚ) :
    (init app db ttl clock : Production β).Linked :=
  ⟨.refl _, .refl _⟩

/-! ### What is known of the requests -/

/-- What an operation begins with. -/
theorem at_enter {db : Database} {k m number : ℕ} (op : Operation β)
    (hopen : db.HasOpen number []) :
    (Database.interference readInt loads k m).At number op op.enter db := by
  cases op with
  | append event => exact ⟨⟨rfl, hopen⟩, fun _ => trivial⟩
  | read call vtf => exact ⟨⟨rfl, hopen⟩, fun _ => trivial⟩
  | fail failure =>
    refine ⟨hopen.accountOver (by simp), fun _ r hr => ?_⟩
    exact (Option.some.inj hr).symm

variable (readInt loads) in
/-- The requests are in their places, and what is known of each holds. -/
structure Known (k m : ℕ) (s : Production β) : Prop where
  linked : s.Linked
  holds : (Database.interference readInt loads k m).Holds s.pool

theorem Known.step {k m : ℕ} (hs : s.Known readInt loads k m)
    (h : s.step hashPrefix readInt loads a = some s') : s'.Known readInt loads k m := by
  refine ⟨hs.linked.step h, ?_⟩
  cases step_effect h with
  | waits => exact hs.holds
  | enters hfront hserved =>
    have hnew := hs.linked.notMem (hs.linked.settled.step hfront) hserved
    exact hs.holds.start hnew fun htraced => at_enter _ (not_not.mp htraced)
  | proceeds hproceed => exact hs.holds.proceed hproceed
  | aborts habort => exact hs.holds.abort habort

theorem Known.run {k m : ℕ} (hs : s.Known readInt loads k m) {acts : List (Action β)}
    (hrun : run (Production.step hashPrefix readInt loads) s acts = some s') :
    s'.Known readInt loads k m :=
  run_invariant (I := fun s => s.Known readInt loads k m) (fun _ _ _ h hstep => h.step hstep) hs
    hrun

/-- No transaction is open, and none has been committed. -/
def Fresh (db : Database) : Prop := db.commits = [] ∧ db.opened = []

theorem known_init {app : AppState} {db : Database} (hdb : Fresh db) (ttl clock : ℚ) :
    (init app db ttl clock : Production β).Known readInt loads 0 0 := by
  refine ⟨linked_init app db ttl clock, ⟨?_, Nat.zero_le _⟩,
    fun _ ht => absurd ht List.not_mem_nil, fun _ ho => absurd ho List.not_mem_nil,
    List.nodup_nil, fun n hn => absurd ⟨?_, ?_⟩ hn⟩
  · simp [Database.OneEach, init, hdb.1]
  · simp [init, hdb.1]
  · simp [init, Database.openedBy, hdb.2]

/-- From any state on, the moments of the requests that are still to come can be counted from the
commits that there have been. -/
theorem Known.since (hs : s.Known readInt loads 0 0) :
    s.Known readInt loads s.front.arrived.length s.db.committed.length := by
  obtain ⟨hlinked, hpool⟩ := hs
  have hearly : ∀ n ∈ s.pool.numbers, ¬ s.front.arrived.length ≤ n := fun n hn => by
    have hmem := hlinked.settled.mem_iff.mp
      (List.mem_append_right _ (hlinked.numbers.mem_iff.mp hn))
    exact not_le.mpr (List.mem_range.mp hmem)
  refine ⟨hlinked, ⟨hpool.inv.oneEach, le_rfl⟩, fun t ht => ⟨(hpool.before t ht).1, fun hk => ?_⟩,
    fun o ho => ⟨(hpool.after o ho).1, fun hk => ?_⟩, hpool.nodup, hpool.traced⟩
  · exact absurd hk (hearly _ (List.mem_append_left _ (List.mem_map_of_mem ht)))
  · exact absurd hk (hearly _ (List.mem_append_right _ (List.mem_map_of_mem ho)))

theorem Known.grows {k m : ℕ} (hs : s.Known readInt loads k m) {acts : List (Action β)}
    (hrun : StepSystem.run (Production.step hashPrefix readInt loads) s acts = some s') :
    Database.Grows s.db s'.db := by
  refine (run_invariant (I := fun t : Production β => Database.Grows s.db t.db ∧
    t.Known readInt loads k m) ?_ ⟨Database.grows_refl _, hs⟩ hrun).1
  rintro t a t' ⟨hgrows, hknown⟩ hstep
  refine ⟨hgrows.trans ?_, hknown.step hstep⟩
  cases step_effect hstep with
  | waits => exact Database.grows_refl _
  | enters =>
    rw [db, db, Pool.shared_settle]
    exact Database.grows_refl _
  | proceeds hproceed => exact (hknown.holds.guarantee_proceed hproceed).grows
  | aborts habort => exact (hknown.holds.guarantee_abort habort).grows

/-- A database without rows, migrated in May. -/
def emptyDatabase : Database where
  partitions := (upgrade migrationDay).getD []
  nextval := 1
  before := []
  commits := []
  opened := []
  numbered := ⟨List.nodup_nil, fun _ h => absurd h List.not_mem_nil⟩

theorem run_proceeds {pool : Pool Database (Operation β) (QueryStage β) Result} {numbers : List ℕ}
    (h : run (endpoints readInt loads).proceed s.pool numbers = some pool) :
    run (step hashPrefix readInt loads) s (numbers.map .proceed) = some { s with pool } := by
  induction numbers generalizing s with
  | nil => exact congrArg (fun pool => some { s with pool }) (Option.some.inj h)
  | cons number numbers ih =>
    obtain ⟨pool', hproceed, hrest⟩ := run_cons_eq_some.mp h
    have hstep : s.step hashPrefix readInt loads (.proceed number) =
        some { s with pool := pool' } := by
      rw [step, hproceed]
      rfl
    exact run_cons_eq_some.mpr ⟨_, hstep, ih (s := { s with pool := pool' }) hrest⟩

/-- A request that is over, as a task of the pool. -/
def outcome (r : Served β) : Outcome (Operation β) Result := ⟨r.number, r.op, some r.result⟩

/-- The service over a repository that is not interrupted, and the application over the database:
the same requests have been answered, with the same results, and none is with the database. -/
structure Uninterrupted (u : Service PostgresEventRepository β) (s : Production β) : Prop where
  front : Service.Alike u s.front
  repo : s.db.repo = u.repo
  running : s.pool.running = []
  finished : s.pool.finished = u.served.map outcome

/-- A request that has come to its operation is brought to its end. -/
theorem exists_run_settle {k m : ℕ} (hs : s.Known readInt loads k m)
    (hrunning : s.pool.running = []) {number : ℕ} (hnew : number ∉ s.pool.numbers)
    (op : Operation β) :
    ∃ numbers pool, run (endpoints readInt loads).proceed (s.pool.settle number op op.enter)
        numbers = some pool ∧ pool.running = [] ∧
      pool.finished = s.pool.finished ++
        [⟨number, op, some (perform readInt loads s.db.repo op).1⟩] ∧
      pool.shared.repo = (perform readInt loads s.db.repo op).2 := by
  have hopen : s.db.HasOpen number [] := by
    by_contra hnot
    exact hnew (hs.holds.traced number hnot)
  cases hstage : op.enter with
  | inl stage =>
    obtain ⟨result, db', halone, hperform⟩ := alone_perform readInt loads hstage hopen.2
    have hnodup : (s.pool.settle number op (.inl stage)).numbers.Nodup :=
      (Pool.numbers_settle _).nodup_iff.mpr (List.nodup_cons.mpr ⟨hnew, hs.linked.nodup⟩)
    obtain ⟨j, hrun⟩ := Pool.run_of_alone halone hnodup
      (List.mem_append_right _ (List.mem_singleton.mpr rfl)) (Pool.shared_settle _)
    refine ⟨_, _, hrun, ?_, ?_, ?_⟩
    · simp [Pool.settle, Pool.take, hrunning]
    · rw [hperform]
      rfl
    · rw [hperform]
      rfl
  | inr result =>
    cases op with
    | append | read => simp [Operation.enter] at hstage
    | fail failure =>
      obtain rfl := Sum.inr.inj hstage
      exact ⟨[], _, rfl, hrunning, rfl, rfl⟩

/-- A step of the front, and the operation that it hands over. -/
theorem step_front {front : Service Deferred β} {b : Service.Action β} {late : List (Served β)}
    (h : s.front.step hashPrefix readInt loads b = some front)
    (hserved : front.served = s.front.served ++ late) :
    s.step hashPrefix readInt loads (.front b) = some { front, pool := handOver s.pool late } := by
  rw [step, h, Option.map_some, hserved, List.drop_left]

/-- The requests that two services answer last. -/
theorem sameOutside_concat {ρ σ : Type} {u u' : Service ρ β} {t t' : Service σ β}
    (h : Service.Alike u t) (h' : Service.Alike u' t') {r r' : Served β}
    (hr : u'.served = u.served ++ [r]) (hr' : t'.served = t.served ++ [r']) :
    Service.SameOutside r r' := by
  have hserved := h'.served
  rw [hr, hr'] at hserved
  have hlength := h.served.length_eq
  have hlast := hserved.get (i := u.served.length) (by simp) (by simp [hlength])
  simpa [hlength] using hlast

/-- One step of the service is a step of the front, and then those of the one request that has come
to its operation. -/
theorem Uninterrupted.step {u u' : Service PostgresEventRepository β} {b : Service.Action β}
    (h : Uninterrupted u s) {k m : ℕ} (hs : s.Known readInt loads k m)
    (hstep : u.step hashPrefix readInt loads b = some u') :
    ∃ as s', run (Production.step hashPrefix readInt loads) s as = some s' ∧
      Uninterrupted u' s' := by
  have hrel : Option.Rel Service.Alike (u.step hashPrefix readInt loads b)
      (s.front.step hashPrefix readInt loads b) := h.front.step b
  rw [hstep] at hrel
  cases hfront : s.front.step hashPrefix readInt loads b with
  | none =>
    rw [hfront] at hrel
    exact nomatch hrel
  | some front =>
    rw [hfront] at hrel
    obtain ⟨halike⟩ := hrel
    have hlength := h.front.served.length_eq
    have hlength' := halike.served.length_eq
    obtain ⟨hrepo, hserved⟩ | ⟨number, op, hrepo, hserved⟩ := Service.serves_of_step hstep <;>
      obtain ⟨-, hfserved⟩ | ⟨number', op', -, hfserved⟩ := Service.serves_of_step hfront
    · have hnone : front.served = s.front.served ++ [] := by rw [hfserved, List.append_nil]
      refine ⟨[.front b], _, run_cons_eq_some.mpr ⟨_, step_front hfront hnone, rfl⟩, halike,
        h.repo.trans hrepo.symm, h.running, ?_⟩
      rw [hserved]
      exact h.finished
    -- the two answer the same number of requests
    · rw [hserved, hfserved, List.length_append] at hlength'
      simp [hlength] at hlength'
    · rw [hserved, hfserved, List.length_append] at hlength'
      simp [hlength] at hlength'
    · obtain ⟨rfl, rfl, -⟩ := sameOutside_concat h.front halike hserved hfserved
      have hnew : number ∉ s.pool.numbers :=
        hs.linked.notMem (hs.linked.settled.step hfront) hfserved
      obtain ⟨numbers, pool, hrun, hrunning, hfinished, hshared⟩ :=
        exists_run_settle hs h.running hnew op
      refine ⟨.front b :: numbers.map .proceed, { front, pool }, run_cons_eq_some.mpr
        ⟨_, step_front hfront hfserved, run_proceeds hrun⟩, halike, ?_, hrunning, ?_⟩
      · rw [hrepo, ← h.repo]
        exact hshared
      · rw [hserved, List.map_append, ← h.finished, ← h.repo]
        exact hfinished

/-- **The service is the application, uninterrupted.** Every run of the service over the Postgres
repository, in which an operation is one stretch, is a run of the application over the database:
the same requests arrive, wait and are answered, with the same results, and the table is the
same. -/
theorem service_is_uninterrupted {app : AppState} {db : Database} (hdb : Fresh db) {ttl clock : ℚ}
    {acts : List (Service.Action β)} {u : Service PostgresEventRepository β}
    (hrun : run (Service.step hashPrefix readInt loads) (.init app db.repo ttl clock) acts =
      some u) :
    ∃ as s, run (step hashPrefix readInt loads) (init app db ttl clock) as = some s ∧
      s.db.repo = u.repo ∧ s.front.arrived = u.arrived ∧ s.front.pending = u.pending ∧
      s.pool.running = [] ∧ s.pool.finished = u.served.map outcome := by
  have hstart : Uninterrupted (.init app db.repo ttl clock : Service PostgresEventRepository β)
      (init app db ttl clock) := ⟨⟨rfl, rfl, rfl, rfl, .nil⟩, rfl, rfl, rfl⟩
  obtain ⟨as, s, has, hs, -⟩ := run_simulate
    (R := fun (u : Service PostgresEventRepository β) (s : Production β) => Uninterrupted u s ∧
      s.Known readInt loads 0 0) (fun u s b u' h hstep => by
        obtain ⟨as, s', has, hu'⟩ := h.1.step h.2 hstep
        exact ⟨as, s', has, hu', h.2.run has⟩)
    ⟨hstart, known_init hdb ttl clock⟩ hrun
  exact ⟨as, s, has, hs.repo, hs.front.arrived.symm, hs.front.pending.symm, hs.running,
    hs.finished⟩

/-- A post, and then a read. -/
def aloneActs : List (Service.Action Unit) :=
  [.arrive (some "changeme") (.postEvents (some claimedInJune.modelDump)) 0,
    .arrive none (.get (.workgraphCost "wg")) 0]

theorem service_is_uninterrupted_two :
    ∃ u : Service PostgresEventRepository Unit,
      run (Service.step id (fun _ => .error "int_parsing") fun _ => .ok .null)
          (.init Service.openToRead emptyDatabase.repo 60 0) aloneActs = some u ∧
        u.served.map Served.number = [0, 1] ∧
        ∃ as s, run (step id (fun _ => .error "int_parsing") fun _ => .ok .null)
            (init Service.openToRead emptyDatabase 60 0) as = some s ∧
          s.pool.finished = u.served.map outcome := by
  have hserved : (run (Service.step id (fun _ => .error "int_parsing") fun _ : Unit => .ok .null)
      (.init Service.openToRead emptyDatabase.repo 60 0) aloneActs).map
        (fun u => u.served.map Served.number) = some [0, 1] := by decide +kernel
  obtain ⟨u, hrun, hu⟩ := Option.map_eq_some_iff.mp hserved
  obtain ⟨as, s, has, -, -, -, -, hfinished⟩ := service_is_uninterrupted ⟨rfl, rfl⟩ hrun
  exact ⟨u, hrun, hu, as, s, has, hfinished⟩

end

end Production

end Vfobs
