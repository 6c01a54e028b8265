import Vfobs.Repositories.EventRepository

/-!
# The query of the events listing

`EventQuery` is the validated query of `GET /events`; its bounds on `from_id` and `limit` are
part of the type. `QueryParams` has the parameters that a request gives, and
`EventQuery.modelValidate` turns them into a query, with the defaults for those it does not
give, or refuses them.
-/

namespace Vfobs

open JsonCodec

/-- The default of `org_id`. -/
def defaultOrgId : String := "viloforge"

/-- The default of `limit`. -/
def defaultLimit : ℤ := 100

/-- The parameters of a request. -/
structure QueryParams where
  workgraphId : Option String := none
  taskId : Option String := none
  agentId : Option String := none
  type : Option String := none
  typeNamespace : Option String := none
  orgId : Option String := none
  fromId : Option ℤ := none
  limit : Option ℤ := none

/-- `EventQuery`. -/
structure EventQuery where
  workgraphId : Option String
  taskId : Option String
  agentId : Option String
  type : Option String
  typeNamespace : Option String
  orgId : String
  fromId : Option ℤ
  limit : ℤ
  fromId_nonneg : ∀ c ∈ fromId, 0 ≤ c
  limit_mem : 1 ≤ limit ∧ limit ≤ 1000

namespace EventQuery

/-- `EventQuery.model_validate`; `none` is a `422`. -/
def modelValidate (p : QueryParams) : Option EventQuery :=
  if h : (∀ c ∈ p.fromId, 0 ≤ c) ∧ 1 ≤ p.limit.getD defaultLimit ∧
      p.limit.getD defaultLimit ≤ 1000 then
    some { p with
      orgId := p.orgId.getD defaultOrgId
      limit := p.limit.getD defaultLimit
      fromId_nonneg := h.1
      limit_mem := h.2 }
  else none

/-- A query is what parameters are validated as exactly when it has their values. -/
theorem modelValidate_eq_some_iff {p : QueryParams} {q : EventQuery} :
    modelValidate p = some q ↔ q.workgraphId = p.workgraphId ∧ q.taskId = p.taskId ∧
      q.agentId = p.agentId ∧ q.type = p.type ∧ q.typeNamespace = p.typeNamespace ∧
      q.orgId = p.orgId.getD defaultOrgId ∧ q.fromId = p.fromId ∧
      q.limit = p.limit.getD defaultLimit := by
  rw [modelValidate]
  constructor
  · split_ifs with hbounds
    · rintro ⟨⟩
      exact ⟨rfl, rfl, rfl, rfl, rfl, rfl, rfl, rfl⟩
    · nofun
  · intro h
    have hfrom := q.fromId_nonneg
    have hlimit := q.limit_mem
    cases q
    simp_all

/-- The filters that the query hands to the repository. -/
def filter (q : EventQuery) : EventFilter where
  workgraphId := q.workgraphId
  taskId := q.taskId
  agentId := q.agentId
  type := q.type
  typeNamespace := q.typeNamespace
  orgId := some q.orgId

/-- `q.model_dump(exclude_none=True, exclude_defaults=True, by_alias=True)`. -/
def filterApplied (q : EventQuery) : List (String × Json) :=
  given "workgraph_id" q.workgraphId ++ given "task_id" q.taskId ++
    given "agent_id" q.agentId ++ given "type" q.type ++
    given "type_namespace" q.typeNamespace ++
    (if q.orgId = defaultOrgId then [] else [("org_id", dump q.orgId)]) ++
    given "from_id" q.fromId ++
    (if q.limit = defaultLimit then [] else [("limit", dump q.limit)])
where
  /-- A field whose default is `None`. -/
  given {α : Type} [JsonCodec α] (key : String) (o : Option α) : List (String × Json) :=
    o.toList.map fun a => (key, dump a)

end EventQuery

end Vfobs
