import Vfobs.Sdk.Watch

/-!
# What an event is read back as

An event is stored whole. It is served as an item of `TaskEventsResponse`, a `StoredEvent`,
whose field `event` is written by the fields of its annotated class, the base class `Event`;
`data` is declared by the subclasses only. The client then fills the gap with its default
`{}`.

`read_back_without_data`: of every stored event the walk brings back the id, the type and the
timestamp, and of none the data; the watcher takes no task for terminal.
-/

open Datetime

namespace Vfobs

/-! ### The timestamp survives -/

/-- `replaceZ`, on characters. -/
def replaceZChars (cs : List Char) : List Char :=
  cs.flatMap fun c => if c = 'Z' then "+00:00".toList else [c]

theorem replaceZ_ofList (cs : List Char) :
    replaceZ (String.ofList cs) = String.ofList (replaceZChars cs) := by
  simp only [replaceZ, replaceZChars, String.toList_ofList]

theorem replaceZChars_append (cs cs' : List Char) :
    replaceZChars (cs ++ cs') = replaceZChars cs ++ replaceZChars cs' := List.flatMap_append

theorem replaceZChars_of_not_mem {cs : List Char} (h : 'Z' ∉ cs) : replaceZChars cs = cs := by
  induction cs with
  | nil => rfl
  | cons c cs ih =>
    obtain ⟨hc, hcs⟩ := List.ne_and_not_mem_of_not_mem_cons h
    rw [replaceZChars, List.flatMap_cons, if_neg (Ne.symm hc), ← replaceZChars, ih hcs,
      List.singleton_append]

/-- Spelling out `Z` leaves a text for the same offset. -/
theorem readOffset_replaceZChars {d : Datetime} (hmin : d.MinuteOffset) :
    EndsFraction (replaceZChars (offsetChars d.utcoffset)) ∧
      readOffset (replaceZChars (offsetChars d.utcoffset)) = some d.utcoffset := by
  by_cases hzero : d.utcoffset = some 0
  · rw [hzero]
    exact ⟨by simp [EndsFraction, offsetChars, replaceZChars], rfl⟩
  · rw [replaceZChars_of_not_mem (zulu_not_mem_offsetChars hzero)]
    exact ⟨endsFraction_offsetChars _, readOffset_offsetChars d.valid.2.2.2.2 hmin⟩

/-- **The watcher reads the timestamp of an event off its view.** -/
theorem parseTs_isoText (ts : IsoDatetime) :
    parseTs ofIsoText ts.1.isoText = some ts.1.instant := by
  obtain ⟨hends, hread⟩ := readOffset_replaceZChars ts.2
  rw [parseTs, isoText, replaceZ_ofList, isoChars, isoCharsWith_eq_append, replaceZChars_append,
    replaceZChars_of_not_mem (not_mem_isoCharsWith _ (by decide) (by decide)),
    ← isoCharsWith_eq_append, ofIsoText, String.toList_ofList, ofIsoChars_isoCharsWith _ hends,
    hread, Option.bind_some, mk?_self, Option.map_some, instant_assumeUtc]

/-! ### The data does not -/

/-- A view carries the whole of a stored event: its id, type, point in time and data. -/
structure CarriesEvent (se : StoredEvent) (v : StoredEventView) : Prop where
  id : v.id = se.id
  type : v.type = se.event.type
  timestamp : parseTs Datetime.ofIsoText v.timestamp = some se.event.timestamp.1.instant
  data : v.data = se.event.data.modelDump

/-- The view of a stored event is that event but for its data. -/
theorem view_spec (se : StoredEvent) :
    se.view.id = se.id ∧ se.view.type = se.event.type ∧
      parseTs Datetime.ofIsoText se.view.timestamp = some se.event.timestamp.1.instant ∧
      se.view.data = .obj [] :=
  ⟨rfl, rfl, parseTs_isoText _, rfl⟩

theorem not_carriesEvent_view (se se' : StoredEvent) : ¬ CarriesEvent se se'.view := fun h =>
  se.event.data.modelDump_ne_empty h.data.symm

/-- The status of a state change can be looked up. -/
theorem terminalHit_modelDump_isSome {data : EventData} (h : data.type = "task.state_changed") :
    (terminalHit data.modelDump).isSome := by
  cases data with
  | taskStateChanged data => rfl
  | _ => simp [EventData.type] at h

/-- What carries a stored event is readable. -/
theorem CarriesEvent.readable {se : StoredEvent} {v : StoredEventView} (h : CarriesEvent se v) :
    Readable Datetime.ofIsoText v := by
  refine ⟨by rw [h.timestamp]; rfl, fun htype => ?_⟩
  rw [h.data]
  exact terminalHit_modelDump_isSome (h.type.symm.trans htype)

/-- So is what it is served as. -/
theorem readable_view (se : StoredEvent) : Readable Datetime.ofIsoText se.view :=
  ⟨by rw [(view_spec se).2.2.1]; rfl, fun _ => rfl⟩

/-- Views of stored events are readable, and none is terminal. -/
theorem fromEvents_views (events : List StoredEvent) (now : ℤ) (taskTimeoutS : ℚ) :
    ∃ state, WatchState.fromEvents Datetime.ofIsoText (events.map StoredEvent.view) now
      taskTimeoutS = some state ∧ state.terminal = false := by
  refine ⟨_, (fromEvents_eq_some_iff _).mpr ⟨?_, rfl⟩, ?_⟩
  · intro v hv
    obtain ⟨se, -, rfl⟩ := List.mem_map.mp hv
    exact readable_view se
  · simp only [WatchState.ofEvents, List.any_eq_false, decide_eq_true_eq]
    intro v hv
    obtain ⟨se, -, rfl⟩ := List.mem_map.mp hv
    exact fun h => nomatch h.2

/-- **Nothing is read back whole.** For every store content, every event stored with a task and
every page limit, the walk over that task returns views one of which has the id, the type and
the point in time of the event, but none of which carries it; and the watcher that reads
them sees no terminal task. -/
theorem read_back_without_data {ρ : Type} [EventRepository ρ] {repo : ρ} {log : EventLog}
    (hrep : Represents repo log) {se : StoredEvent} (hse : se ∈ log.entries) {taskId : String}
    (htask : se.event.taskId = some taskId) (pageLimit : ℤ) :
    ∃ enough, ∀ fuel ≥ enough, ∃ views k,
      taskEvents (fun _ => repo) taskId pageLimit fuel 0 {} = some (views, k) ∧
        (∃ v ∈ views, v.id = se.id ∧ v.type = se.event.type ∧
          parseTs Datetime.ofIsoText v.timestamp = some se.event.timestamp.1.instant) ∧
        (¬ ∃ v ∈ views, CarriesEvent se v) ∧
        ∀ now taskTimeoutS, ∃ state,
          WatchState.fromEvents Datetime.ofIsoText views now taskTimeoutS = some state ∧
            state.terminal = false := by
  obtain ⟨enough, hwalk⟩ := taskEvents_at_rest taskId pageLimit hrep
  refine ⟨enough, fun fuel hfuel => ?_⟩
  obtain ⟨k, hrun⟩ := hwalk fuel hfuel
  refine ⟨_, k, hrun, ?_, ?_, fromEvents_views _⟩
  · obtain ⟨hid, htype, hts, -⟩ := view_spec se
    exact ⟨se.view, List.mem_map_of_mem ((EventLog.mem_select _ _).mpr ⟨hse, htask⟩), hid, htype,
      hts⟩
  · rintro ⟨v, hv, hcarries⟩
    obtain ⟨se', -, rfl⟩ := List.mem_map.mp hv
    exact not_carriesEvent_view se se' hcarries

/-- The state change of a task that is done. -/
def doneRun : Event :=
  runEvent (isoMidnight .epoch) (.taskStateChanged ⟨"doing", "done", none⟩)

theorem read_back_without_data_doneRun :
    ∃ enough, ∀ fuel ≥ enough, ∃ views k,
      taskEvents (fun _ => (InMemoryEventRepository.init.store doneRun).2) "t" 1000 fuel 0 {} =
          some (views, k) ∧
        (∃ v ∈ views, v.id = 1 ∧ v.type = "task.state_changed" ∧
          parseTs Datetime.ofIsoText v.timestamp = some (midnight .epoch)) ∧
        (¬ ∃ v ∈ views, CarriesEvent ⟨1, doneRun⟩ v) ∧
        ∀ now taskTimeoutS, ∃ state,
          WatchState.fromEvents Datetime.ofIsoText views now taskTimeoutS = some state ∧
            state.terminal = false :=
  have hse : ⟨1, doneRun⟩ ∈ (InMemoryEventRepository.init.store doneRun).2.log.entries :=
    InMemoryEventRepository.mem_log.mpr (List.mem_singleton_self _)
  read_back_without_data (InMemoryEventRepository.represents _) hse rfl 1000

/-- The walk over a task that is done: its data is gone, and it is not terminal. -/
theorem doneRun_read_back :
    ∃ view, taskEvents (fun _ => (InMemoryEventRepository.init.store doneRun).2) "t" 1000 1 0 {} =
        some ([view], 0) ∧
      doneRun.data.modelDump =
        .obj [("from_status", .str "doing"), ("to_status", .str "done"),
          ("execution_summary", .null)] ∧
      ¬ CarriesEvent ⟨1, doneRun⟩ view ∧
      ∃ state, WatchState.fromEvents Datetime.ofIsoText [view] 0 3600 = some state ∧
        state.terminal = false :=
  ⟨_, rfl, rfl, fun h => (nomatch h.data), _, rfl, rfl⟩

end Vfobs
