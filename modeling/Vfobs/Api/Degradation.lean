import Vfobs.Api.Resources
import Vfobs.Repositories.InMemory

/-!
# Metadata failures only degrade

The resource endpoints compose two partial sources. What vtaskforge knows comes over the
network and may fail at every step; `ResourceKind.fetch` is that half, `none` for a client that
is not configured, and `ResourceKind.get` an endpoint as a whole, over a repository that does not
change during the request.

`metadata_only_degrades`: whatever the call to vtaskforge comes to, an endpoint answers a `404`
when neither half knows the resource, and otherwise a response whose half of the repository is
the same as ever. Nothing else is raised. Reading authentication comes before the endpoint, and
writing the response out after it.
-/

namespace Vfobs

namespace ResourceKind

variable {β : Type} (readInt : String → Except String ℤ) (loads : β → Except PyException Json)

/-- `model_validate` of the metadata of a resource. -/
def modelValidate : (kind : ResourceKind) → Json → Option kind.Metadata
  | workgraph => WorkgraphMetadata.modelValidate readInt
  | task => TaskMetadata.modelValidate

/-- `await vtf.get_workgraph(…) if vtf else None`, and the same of `get_task`. -/
def fetch : (kind : ResourceKind) → Option (Upstream β) → Option kind.Metadata
  | _, none => none
  | workgraph, some upstream => VtfClient.getWorkgraph loads readInt upstream
  | task, some upstream => VtfClient.getTask loads upstream

/-- An endpoint; `vtf` is what the call to vtaskforge comes to, `none` when there is no client. -/
def get {ρ : Type} [EventRepository ρ] (kind : ResourceKind) (id : String)
    (vtf : Option (Upstream β)) (repo : ρ) : Except PyException (ReadResponse kind.Part) :=
  kind.read id (kind.fetch readInt loads vtf) repo repo

/-- vtaskforge gave usable metadata: a `200` whose body is a JSON object that the metadata model
accepts. -/
def Usable (kind : ResourceKind) (vtf : Option (Upstream β)) (m : kind.Metadata) : Prop :=
  ∃ body fs, vtf = some (.response 200 body) ∧ loads body = .ok (.obj fs) ∧
    kind.modelValidate readInt (.obj fs) = some m

variable {readInt loads}

theorem fetch_eq_some_iff {kind : ResourceKind} {vtf : Option (Upstream β)} {m : kind.Metadata} :
    kind.fetch readInt loads vtf = some m ↔ kind.Usable readInt loads vtf m := by
  cases vtf with
  | none => cases kind <;> simp [fetch, Usable]
  | some upstream =>
    simp only [Usable, Option.some.injEq]
    cases kind with
    | workgraph => exact getMetadata_eq_some_iff
    | task => exact getMetadata_eq_some_iff

theorem fetch_eq_none_iff {kind : ResourceKind} {vtf : Option (Upstream β)} :
    kind.fetch readInt loads vtf = none ↔ ∀ m, ¬ kind.Usable readInt loads vtf m := by
  simp only [Option.eq_none_iff_forall_ne_some, ne_eq, fetch_eq_some_iff]

end ResourceKind

theorem EventLog.count_eq_zero_iff {log : EventLog} {p : Event → Prop} [DecidablePred p] :
    log.count p = 0 ↔ ∀ se ∈ log.entries, ¬ p se.event := by
  simp [EventLog.count, EventLog.select]

/-- **Metadata failures only degrade.** Take any repository, any id and any outcome of the call
to vtaskforge: no client, an exception, any status with any body. Where there is no usable
metadata and no event of the id, the endpoint answers a `404`. Otherwise it answers with what
there is: the projection of the metadata, if there is any, and the half of the repository, in
which vtaskforge has no part. -/
theorem metadata_only_degrades {β : Type} (readInt : String → Except String ℤ)
    (loads : β → Except PyException Json) {ρ : Type} [EventRepository ρ] {repo : ρ}
    {log : EventLog} (h : Represents repo log) (kind : ResourceKind) (id : String)
    (vtf : Option (Upstream β)) :
    (kind.get readInt loads id vtf repo = .error (.http 404 kind.notFound) ↔
      (∀ m, ¬ kind.Usable readInt loads vtf m) ∧ ∀ se ∈ log.entries, ¬ kind.Owns id se.event) ∧
    (¬ ((∀ m, ¬ kind.Usable readInt loads vtf m) ∧
        ∀ se ∈ log.entries, ¬ kind.Owns id se.event) →
      ∃ response, kind.get readInt loads id vtf repo = .ok response ∧
        response.id = id ∧
        (response.vtf = none ↔ ∀ m, ¬ kind.Usable readInt loads vtf m) ∧
        (∀ m, kind.Usable readInt loads vtf m → response.vtf = some (kind.fromMetadata m)) ∧
        response.vfobs = .build (log.count (kind.Owns id)) (log.last (kind.Owns id))) := by
  have hunknown : (kind.fetch readInt loads vtf).isNone ∧ log.count (kind.Owns id) = 0 ↔
      (∀ m, ¬ kind.Usable readInt loads vtf m) ∧ ∀ se ∈ log.entries, ¬ kind.Owns id se.event := by
    rw [Option.isNone_iff_eq_none, ResourceKind.fetch_eq_none_iff, EventLog.count_eq_zero_iff]
  rw [ResourceKind.get, kind.read_eq h h, ← hunknown]
  split_ifs with h404
  · exact ⟨iff_of_true rfl h404, fun hknown => absurd h404 hknown⟩
  · refine ⟨iff_of_false (by simp) h404, fun _ => ⟨_, rfl, rfl, ?_, fun m hm => ?_, rfl⟩⟩
    · rw [Option.map_eq_none_iff, ResourceKind.fetch_eq_none_iff]
    · rw [ResourceKind.fetch_eq_some_iff.mpr hm, Option.map_some]

/-- An empty store, and a client that is not configured. -/
theorem metadata_only_degrades_unknown :
    ResourceKind.task.get (β := Unit) (fun _ => .error "int_parsing") (fun _ => .ok .null) "t" none
      InMemoryEventRepository.init = .error (.http 404 "task not found") := by
  have hdegrades := metadata_only_degrades (fun _ => .error "int_parsing")
    (fun _ : Unit => .ok .null) InMemoryEventRepository.init.represents .task "t" none
  refine hdegrades.1.mpr ⟨?_, fun se hse => ?_⟩
  · rintro m ⟨body, fs, hvtf, -⟩
    exact nomatch hvtf
  · exact nomatch InMemoryEventRepository.mem_log.mp hse

end Vfobs
