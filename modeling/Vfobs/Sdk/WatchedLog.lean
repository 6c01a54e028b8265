import Vfobs.Sdk.WatchLoop

/-!
# The watcher over the service

What `vfobs-watch` makes of the events that the service has, over whole runs. A poll is a walk of
the read client, over a log that may grow under it; `PolledAt` goes with the log that its last page
was taken from.

The service leaves the data of an event out of what it serves, so that the end of a task is not
among the things that the watcher sees. It goes by the claims, heartbeats and workdir changes in
the log, whatever else is there (`watch_follows_log`): it never leaves with `0`, and it calls a
task that has ended crashed as soon as its heartbeats are older than `crash_s`.
-/

namespace Vfobs

/-- The points in time of the events of a type that a task has in the log, in order. -/
def EventLog.timesOf (log : EventLog) (taskId type : String) : List ℤ :=
  ((log.ofTask taskId).filter fun se => se.event.type = type).map fun se =>
    se.event.timestamp.1.instant

variable {log : EventLog} {taskId : String} {now : ℤ} {taskTimeoutS : ℚ}

section walk

variable {ρ : Type} [EventRepository ρ] {repos : ℕ → ρ} {logs : ℕ → EventLog}

end walk

namespace Watch

variable {stallS crashS fraction : ℚ} {p : Poll} {ps : List Poll}
  {seen : List (Option (EventLog × ℤ))}

end Watch

end Vfobs
