import Vfobs.Foundations.UrlPath
import Vfobs.Sdk.ReadClient

/-!
# The task that a URL asks about

`ReadClient.task_events` writes the task id into a URL as it is. `requested` is the endpoint that
the request reaches: the HTTP client may refuse the URL, what it sends of the path is decoded by
the server, and the path is matched segment by segment.

`requested_eq_taskEvents_iff` says for which ids that is `get_task_events` of the same task; the
other ids ask about another task, or another endpoint, or nothing (`Addressable`).
-/

namespace Vfobs

open UrlPath PercentEncoding

/-- What is left open of the HTTP client: the URLs it accepts, and the characters of a path that
it does not escape. A `%` that is not part of an escape is none of them. -/
structure UrlClient where
  accepts : String → Bool
  safe : Char → Bool
  safe_percent : safe '%' = false

/-- The `GET` endpoints of the routers, with their path parameters. -/
inductive Endpoint
  | healthz
  | readyz
  | listEvents
  | getWorkgraph (workgraphId : String)
  | getTask (taskId : String)
  | getTaskEvents (taskId : String)
  | workgraphCost (workgraphId : String)
  | agentCost (agentId : String)
  deriving DecidableEq, Repr

/-- The endpoint that a path matches. A path parameter is one segment, which is not empty. -/
def route (path : List Char) : Option Endpoint :=
  match (path.splitOn '/').map String.ofList with
  | ["", "healthz"] => some .healthz
  | ["", "readyz"] => some .readyz
  | ["", "events"] => some .listEvents
  | ["", "workgraphs", workgraphId] => param workgraphId .getWorkgraph
  | ["", "tasks", taskId] => param taskId .getTask
  | ["", "tasks", taskId, "events"] => param taskId .getTaskEvents
  | ["", "workgraphs", workgraphId, "cost"] => param workgraphId .workgraphCost
  | ["", "agents", agentId, "cost"] => param agentId .agentCost
  | _ => none
where
  /-- An endpoint with a path parameter. -/
  param (value : String) (endpoint : String → Endpoint) : Option Endpoint :=
    if value = "" then none else some (endpoint value)

/-- What `task_events` puts after `_base`, the origin of the service. -/
def taskEventsPath (taskId : String) : String := "/tasks/" ++ taskId ++ "/events"

/-- The endpoint that a request of `task_events` reaches; `none` when the client refuses the URL
or nothing matches. -/
def requested (client : UrlClient) (base taskId : String) : Option Endpoint :=
  if client.accepts (base ++ taskEventsPath taskId) then
    route (received client.safe (taskEventsPath taskId).toList)
  else none

/-- A task id that survives being written into a URL: the client accepts the URL, and the id has
no delimiter, no escape, and is no dot segment. -/
structure Addressable (client : UrlClient) (base taskId : String) : Prop where
  accepted : client.accepts (base ++ taskEventsPath taskId) = true
  plain : ∀ c ∈ taskId.toList, c ≠ '#' ∧ c ≠ '?' ∧ c ≠ '/'
  notEscaped : ¬ hasEscape taskId.toList
  notDots : taskId ≠ "." ∧ taskId ≠ ".."

variable {client : UrlClient} {base taskId : String} {path : List Char}

theorem route_eq_getTaskEvents_iff : route path = some (.getTaskEvents taskId) ↔
    (path.splitOn '/').map String.ofList = ["", "tasks", taskId, "events"] ∧ taskId ≠ "" := by
  constructor
  · intro h
    rw [route] at h
    split at h
    case h_6 id hpath =>
      obtain ⟨hne, rfl⟩ : id ≠ "" ∧ id = taskId := by simpa [route.param] using h
      exact ⟨hpath, hne⟩
    all_goals simp [route.param] at h
  · rintro ⟨h, hne⟩
    simp [route, h, route.param, hne]

/-! ### The path of a task id -/

theorem toList_taskEventsPath (taskId : String) : (taskEventsPath taskId).toList =
    "/tasks/".toList ++ (taskId.toList ++ '/' :: "events".toList) := by
  simp [taskEventsPath]

theorem splitOn_taskEventsPath (taskId : String) : (taskEventsPath taskId).toList.splitOn '/' =
    [] :: "tasks".toList :: (taskId.toList.splitOn '/' ++ ["events".toList]) := by
  have hfront : "/tasks/".toList ++ (taskId.toList ++ '/' :: "events".toList) =
      [] ++ '/' :: ("tasks".toList ++ '/' :: (taskId.toList ++ '/' :: "events".toList)) := rfl
  rw [toList_taskEventsPath, hfront, List.splitOn_append_cons_self,
    List.splitOn_append_cons_self, List.splitOn_append_cons_self, List.splitOn_nil,
    List.splitOn_eq_singleton (by decide : '/' ∉ "tasks".toList),
    List.splitOn_eq_singleton (by decide : '/' ∉ "events".toList)]
  rfl

theorem hasEscape_taskEventsPath (taskId : String) :
    hasEscape (taskEventsPath taskId).toList = hasEscape taskId.toList := by
  rw [toList_taskEventsPath, hasEscape_append_of_notMem (by decide)]
  exact hasEscape_append_cons (by decide) (by decide)

theorem hasDots_taskEventsPath (h : '/' ∉ taskId.toList) :
    hasDots (taskEventsPath taskId).toList ↔ taskId = "." ∨ taskId = ".." := by
  have hdots (s : String) (l : List Char) (hl : s.toList = l) : taskId.toList = l ↔ taskId = s := by
    rw [← hl, String.toList_inj]
  rw [hasDots, splitOn_taskEventsPath, List.splitOn_eq_singleton h]
  simp [isDots, hdots "." ['.'] rfl, hdots ".." ['.', '.'] rfl]

theorem notMem_of_splitOn_eq_singleton {cs seg : List Char} (h : cs.splitOn '/' = [seg]) :
    '/' ∉ cs := by
  intro hmem
  obtain ⟨xs, ys, rfl⟩ := List.append_of_mem hmem
  have hlength := congrArg List.length h
  have hxs := List.length_pos_iff.mpr (List.splitOn_ne_nil '/' xs)
  have hys := List.length_pos_iff.mpr (List.splitOn_ne_nil '/' ys)
  rw [List.splitOn_append_cons_self, List.length_append, List.length_singleton] at hlength
  omega

/-- A path that is routed to the endpoint is the path of that task. -/
theorem eq_of_route_eq_getTaskEvents (h : route path = some (.getTaskEvents taskId)) :
    path = (taskEventsPath taskId).toList := by
  obtain ⟨hsegs, -⟩ := route_eq_getTaskEvents_iff.mp h
  have hsplit : path.splitOn '/' = [[], "tasks".toList, taskId.toList, "events".toList] := by
    have := congrArg (List.map String.toList) hsegs
    simpa [List.map_map, Function.comp_def] using this
  calc path = List.intercalate ['/'] (path.splitOn '/') := (List.intercalate_splitOn '/').symm
    _ = (taskEventsPath taskId).toList := by
      rw [hsplit, toList_taskEventsPath]
      simp [List.intercalate]

/-- The path of a task id is received as it is and routed to that task. -/
theorem received_taskEventsPath_iff (hplain : '/' ∉ taskId.toList) :
    received client.safe (taskEventsPath taskId).toList = (taskEventsPath taskId).toList ↔
      (∀ c ∈ taskId.toList, c ≠ '#' ∧ c ≠ '?') ∧ ¬ hasEscape taskId.toList ∧
        taskId ≠ "." ∧ taskId ≠ ".." := by
  rw [received_eq_self_iff client.safe_percent, hasEscape_taskEventsPath,
    hasDots_taskEventsPath hplain, not_or]
  have hfront : ∀ c ∈ "/tasks/".toList, c ≠ '?' ∧ c ≠ '#' := by simp
  have hback : ∀ c ∈ '/' :: "events".toList, c ≠ '?' ∧ c ≠ '#' := by simp
  have hcut : (∀ c ∈ (taskEventsPath taskId).toList, c ≠ '?' ∧ c ≠ '#') ↔
      ∀ c ∈ taskId.toList, c ≠ '#' ∧ c ≠ '?' := by
    rw [toList_taskEventsPath, List.forall_mem_append, List.forall_mem_append,
      and_iff_right hfront, and_iff_left hback]
    exact forall₂_congr fun _ _ => and_comm
  rw [hcut]
  exact and_congr_right fun _ => and_comm

theorem requested_of_addressable (h : Addressable client base taskId) (hne : taskId ≠ "") :
    requested client base taskId = some (.getTaskEvents taskId) := by
  have hplain : '/' ∉ taskId.toList := fun hmem => (h.plain '/' hmem).2.2 rfl
  have hpath : received client.safe (taskEventsPath taskId).toList =
      (taskEventsPath taskId).toList := (received_taskEventsPath_iff hplain).mpr
    ⟨fun c hc => ⟨(h.plain c hc).1, (h.plain c hc).2.1⟩, h.notEscaped, h.notDots⟩
  rw [requested, if_pos h.accepted, hpath, route_eq_getTaskEvents_iff, splitOn_taskEventsPath,
    List.splitOn_eq_singleton hplain]
  exact ⟨by simp, hne⟩

theorem addressable_of_requested (h : requested client base taskId = some (.getTaskEvents taskId)) :
    Addressable client base taskId := by
  rw [requested] at h
  split_ifs at h with haccepts
  have hpath := eq_of_route_eq_getTaskEvents h
  have hplain : '/' ∉ taskId.toList := by
    have hsplit := congrArg (List.map String.toList) (route_eq_getTaskEvents_iff.mp h).1
    rw [hpath, splitOn_taskEventsPath] at hsplit
    have hsplit : taskId.toList.splitOn '/' ++ ["events".toList] =
        [taskId.toList] ++ ["events".toList] := by
      simpa [List.map_map, Function.comp_def] using hsplit
    exact notMem_of_splitOn_eq_singleton (List.append_cancel_right hsplit)
  obtain ⟨hcut, hescape, hdots⟩ := (received_taskEventsPath_iff hplain).mp hpath
  exact ⟨haccepts, fun c hc => ⟨(hcut c hc).1, (hcut c hc).2, fun heq => hplain (heq ▸ hc)⟩,
    hescape, hdots⟩

/-- **The watched task is the requested task**, exactly for the ids that survive. -/
theorem requested_eq_getTaskEvents_iff (client : UrlClient) (base taskId : String)
    (hne : taskId ≠ "") :
    requested client base taskId = some (.getTaskEvents taskId) ↔
      Addressable client base taskId :=
  ⟨addressable_of_requested, fun h => requested_of_addressable h hne⟩

/-- A client that accepts every URL and escapes what may not stand in a path. -/
def UrlClient.acceptAll : UrlClient where
  accepts _ := true
  safe c := c.isAlphanum || c ∈ "-._~!$&'()*+,;=:/[]@".toList
  safe_percent := by decide

theorem requested_eq_getTaskEvents_iff_t1 :
    requested .acceptAll "http://vfobs" "t1" = some (.getTaskEvents "t1") :=
  (requested_eq_getTaskEvents_iff .acceptAll "http://vfobs" "t1" (by decide)).mpr
    ⟨rfl, by simp, by decide, by decide⟩

/-- A `?` in a task id ends the path, which may be that of another task. -/
theorem question_mark_asks_another_task :
    requested .acceptAll "http://vfobs" "t1/events?" = some (.getTaskEvents "t1") ∧
      "t1" ≠ "t1/events?" := by
  have haccepts : UrlClient.acceptAll.accepts ("http://vfobs" ++ taskEventsPath "t1/events?") =
      true := rfl
  have hcut : received UrlClient.acceptAll.safe (taskEventsPath "t1/events?").toList =
      received UrlClient.acceptAll.safe (taskEventsPath "t1").toList := rfl
  have hpath : received UrlClient.acceptAll.safe (taskEventsPath "t1").toList =
      (taskEventsPath "t1").toList := (received_taskEventsPath_iff (by decide)).mpr
        ⟨by simp, by decide, by decide, by decide⟩
  refine ⟨?_, by decide⟩
  rw [requested, if_pos haccepts, hcut, hpath, route_eq_getTaskEvents_iff,
    splitOn_taskEventsPath, List.splitOn_eq_singleton (by decide)]
  exact ⟨by simp, by decide⟩

/-! ### The fetches of the loop -/

section

variable {ρ : Type} [EventRepository ρ] (other : Endpoint → Option Json) (repo : ρ)
  (pageLimit : ℤ) (fromId : Option ℤ)

/-- What an endpoint answers; `other` is what those do that `task_events` is not written for. -/
def Endpoint.answer : Endpoint → Option Json
  | getTaskEvents taskId => serve repo taskId pageLimit fromId
  | endpoint => other endpoint

/-- What a fetch of `task_events` is answered. -/
def fetchUrl (client : UrlClient) (base taskId : String) : Option Json :=
  (requested client base taskId).bind (Endpoint.answer other repo pageLimit fromId)

/-- For an id that survives, the fetches of the loop are answered by the task's own endpoint. -/
theorem fetchUrl_eq_serve (h : Addressable client base taskId) (hne : taskId ≠ "") :
    fetchUrl other repo pageLimit fromId client base taskId =
      serve repo taskId pageLimit fromId := by
  rw [fetchUrl, requested_of_addressable h hne, Option.bind_some, Endpoint.answer]

end

end Vfobs
