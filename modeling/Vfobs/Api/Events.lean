import Vfobs.Foundations.Exceptions
import Vfobs.Foundations.Stages
import Vfobs.Repositories.InMemory

/-!
# Ingestion

`POST /events` hands the event to a chain of nodes that share a context; the last one is
`storer`. A `QuietNode` is a node that leaves the repository of the context alone, and a
`Request` is a run of quiet nodes with `storer` at their end.

`pipeline_atomic`: a request raises and leaves the repository as it was, when one of its
nodes raises, or it stores one event, what its nodes have made of the posted one, under an
id above all that were given out before.
-/

namespace Vfobs

open Stages

/-- The context of a pipeline; `other` is whatever else its nodes keep there. -/
structure Context (κ : Type) where
  repo : InMemoryEventRepository
  id : Option ℤ := none
  other : κ

/-- `PipelineNode`. -/
abbrev PipelineNode (κ : Type) := Stage Event (Context κ) PyException

variable {κ : Type}

/-- `enricher`. -/
def enricher : PipelineNode κ := fun event context => (.ok event, context)

/-- `storer`. -/
def storer : PipelineNode κ := fun event context =>
  let (eid, repo) := context.repo.store event
  (.ok event, { context with repo, id := some eid })

/-- `PIPELINE`. -/
def pipeline : List (PipelineNode κ) := [enricher, storer]

/-- `run_pipeline`. -/
def runPipeline (event : Event) (context : Context κ) (nodes : List (PipelineNode κ)) :
    Except PyException ℤ × Context κ :=
  match runStages nodes event context with
  | (.error e, context) => (.error e, context)
  | (.ok _, context) =>
    match context.id with
    | some id => (.ok id, context)
    | none => (.error (.other "KeyError" "'id'"), context)

/-- `post_events`, after the body and the token have been checked. -/
def postEvents (repo : InMemoryEventRepository) (principal : String) (body : Event) :
    Except PyException ℤ × InMemoryEventRepository :=
  let (outcome, context) := runPipeline body ⟨repo, none, principal⟩ pipeline
  (outcome, context.repo)

/-- A node that leaves the repository alone, whether it raises or not. -/
structure QuietNode (κ : Type) where
  run : PipelineNode κ
  repo_eq : ∀ event context, (run event context).2.repo = context.repo

/-- A run of the pipeline: its nodes before `storer`, and the event and the context it starts
with. -/
structure Request (κ : Type) where
  nodes : List (QuietNode κ)
  event : Event
  id : Option ℤ := none
  other : κ

namespace Request

/-- The context of a request, over a repository. -/
def context (r : Request κ) (repo : InMemoryEventRepository) : Context κ := ⟨repo, r.id, r.other⟩

/-- The nodes before `storer`. -/
def earlier (r : Request κ) : List (PipelineNode κ) := r.nodes.map QuietNode.run

/-- Handle a request. -/
def handle (r : Request κ) (repo : InMemoryEventRepository) :
    Except PyException ℤ × InMemoryEventRepository :=
  let (outcome, context) := runPipeline r.event (r.context repo) (r.earlier ++ [storer])
  (outcome, context.repo)

/-- Handle requests in turn: the ids they return, and the repository after them. -/
def handleAll (repo : InMemoryEventRepository) : List (Request κ) → List ℤ × InMemoryEventRepository
  | [] => ([], repo)
  | r :: rest =>
    match r.handle repo with
    | (.ok eid, repo) => (eid :: (handleAll repo rest).1, (handleAll repo rest).2)
    | (.error _, repo) => handleAll repo rest

/-- The nodes before `storer` take the posted event to `event`. -/
def Composes (r : Request κ) (repo : InMemoryEventRepository) (event : Event) : Prop :=
  ∃ context, Flows r.earlier r.event (r.context repo) event context

/-- One of the nodes before `storer` raises `e`. -/
def Raises (r : Request κ) (repo : InMemoryEventRepository) (e : PyException) : Prop :=
  ∃ context, Halts r.earlier r.event (r.context repo) e context

variable {r : Request κ} {repo : InMemoryEventRepository}

theorem repo_runStages_earlier (r : Request κ) (repo : InMemoryEventRepository) :
    (runStages r.earlier r.event (r.context repo)).2.repo = repo := by
  refine read_runStages (fun node hnode event context => ?_)
  obtain ⟨quiet, -, rfl⟩ := List.mem_map.mp hnode
  exact quiet.repo_eq event context

/-- **What handling a request comes to.** -/
theorem handle_cases (r : Request κ) (repo : InMemoryEventRepository) :
    (∃ e, r.Raises repo e ∧ r.handle repo = (.error e, repo)) ∨
      ∃ event, r.Composes repo event ∧
        r.handle repo = (.ok (repo.store event).1, (repo.store event).2) := by
  have hrepo := r.repo_runStages_earlier repo
  obtain ⟨event, context, hrun, hflows⟩ | ⟨e, context, hrun, hhalts⟩ :=
    flows_or_halts r.earlier r.event (r.context repo)
  · rw [hrun] at hrepo
    refine .inr ⟨event, ⟨context, hflows⟩, ?_⟩
    simp only [handle, runPipeline, runStages_append, hrun, runStages, storer]
    rw [← hrepo]
  · rw [hrun] at hrepo
    refine .inl ⟨e, ⟨context, hhalts⟩, ?_⟩
    simp only [handle, runPipeline, runStages_append, hrun]
    rw [← hrepo]

/-- Every id that is returned comes from the counter. -/
theorem handleAll_spec (served : List (Request κ)) (repo : InMemoryEventRepository) :
    repo.nextId ≤ (handleAll repo served).2.nextId ∧
      ∀ i ∈ (handleAll repo served).1, repo.nextId ≤ i ∧ i < (handleAll repo served).2.nextId := by
  induction served generalizing repo with
  | nil => simp [handleAll]
  | cons r served ih =>
    obtain ⟨e, -, hr⟩ | ⟨event, -, hr⟩ := r.handle_cases repo
    · rw [handleAll, hr]
      exact ih repo
    · obtain ⟨hle, hids⟩ := ih (repo.store event).2
      have hstep : repo.nextId < (repo.store event).2.nextId := Int.lt_succ _
      rw [handleAll, hr]
      refine ⟨hstep.le.trans hle, fun i hi => ?_⟩
      rcases List.mem_cons.mp hi with rfl | hi
      · exact ⟨le_rfl, hstep.trans_le hle⟩
      · exact ⟨hstep.le.trans (hids i hi).1, (hids i hi).2⟩

/-- The ids of a run of requests increase. -/
theorem pairwise_handleAll (served : List (Request κ)) (repo : InMemoryEventRepository) :
    (handleAll repo served).1.Pairwise (· < ·) := by
  induction served generalizing repo with
  | nil => exact .nil
  | cons r served ih =>
    obtain ⟨e, -, hr⟩ | ⟨event, -, hr⟩ := r.handle_cases repo
    · rw [handleAll, hr]
      exact ih repo
    · rw [handleAll, hr]
      refine .cons (fun i hi => ?_) (ih _)
      exact (Int.lt_succ _).trans_le ((handleAll_spec served _).2 i hi).1

/-- **Atomicity.** Whatever requests have been served before, and whatever the quiet nodes of
a request make of its event and of its context: a node raises, and the repository is as it
was; or the repository has one event more, the one its nodes have made of the posted event,
under an id above those of all the events it held and above every id returned before, and
`get_by_id` answers as before for every other id. -/
theorem pipeline_atomic (start : InMemoryEventRepository) (served : List (Request κ))
    (r : Request κ) :
    let ids := (handleAll start served).1
    let repo := (handleAll start served).2
    (∃ e, r.Raises repo e ∧ r.handle repo = (.error e, repo)) ∨
      ∃ event eid repo', r.Composes repo event ∧ r.handle repo = (.ok eid, repo') ∧
        repo'.events = repo.events ++ [(eid, event)] ∧ repo'.getById eid = some event ∧
        (∀ i ≠ eid, repo'.getById i = repo.getById i) ∧
        (∀ item ∈ repo.events, item.1 < eid) ∧ ∀ i ∈ ids, i < eid := by
  intro ids repo
  obtain hraises | ⟨event, hcomposes, hr⟩ := r.handle_cases repo
  · exact .inl hraises
  · refine .inr ⟨event, _, _, hcomposes, hr, rfl, repo.getById_store_self event,
      fun i hi => repo.getById_store_of_ne event hi, repo.fresh, fun i hi => ?_⟩
    exact ((handleAll_spec served start).2 i hi).2

end Request

/-- The endpoint stores the posted event as it is. -/
theorem postEvents_eq (repo : InMemoryEventRepository) (principal : String) (body : Event) :
    postEvents repo principal body = (.ok (repo.store body).1, (repo.store body).2) := rfl

end Vfobs
