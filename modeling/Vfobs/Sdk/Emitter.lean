import Vfobs.Foundations.Run
import Vfobs.Foundations.BoundedQueue
import Mathlib.Data.List.Nodup
import Mathlib.Data.List.Pairwise

/-!
# The HTTP emitter: producers, one drain task, and a cancelling close

`HttpEmitter` is the state `emit`, `_run` and `aclose` share: the bounded deque, the wake
event, the close flag and the drain task. asyncio interleaves callbacks only at `await`
points, so `_run` is cut there: between two of its awaits it runs without interruption
(`loopHead`, `afterWake`), and what is left of it while it is suspended is recorded by
`DrainTask`. An action (`Action`) is one such uninterrupted stretch — of a producer, of the
drain task or of an `aclose` call — and its label carries what the environment decides:
whether a loop is running, which timer fires first, how a POST ends.

`World` adds the history that the delivery guarantees speak about: every emitted event
with its sequence number, the POSTs that ended, the ones a cancelled drain gave up, and the
events the deque dropped. `step_effect` says once what a step can do; `Conserved` is the
invariant all guarantees are read from, and it holds in every reachable state
(`conserved_of_run`).

An event whose serialization fails never reaches the wire, but the drain treats it like a
POST that raised, and so does the model. `_warn` only writes to the log: what it writes is in
`Vfobs.Sdk.DeliveryWarnings`.
-/

namespace Vfobs

open StepSystem

variable {α : Type*}

/-! ### The emitter -/

/-- The drain task as the event loop sees it between two callbacks. -/
inductive DrainTask (α : Type*)
  /-- `self._drain is None`. -/
  | absent
  /-- Made by `create_task`; its first stretch has not run yet. -/
  | created
  /-- Suspended in `wait_for(self._wake.wait(), timeout=1.0)`. -/
  | waiting
  /-- Suspended in `await self._http.post(...)` with `event` popped. -/
  | posting (event : α)
  /-- `_run` returned. -/
  | finished
  /-- `aclose` cancelled it. -/
  | cancelled
  deriving DecidableEq

/-- The event whose POST is under way. -/
def DrainTask.inFlight : DrainTask α → List α
  | posting event => [event]
  | _ => []

/-- The task has been created and has not ended. -/
def DrainTask.alive : DrainTask α → Bool
  | created | waiting | posting _ => true
  | absent | finished | cancelled => false

/-- The fields of `HttpEmitter` that `emit`, `_run` and `aclose` share. -/
structure HttpEmitter (α : Type*) where
  /-- `maxlen` of the deque. -/
  queueMax : ℕ
  /-- `_q`. -/
  q : List α
  /-- `_wake.is_set()`. -/
  wake : Bool
  /-- `_closed`. -/
  closed : Bool
  /-- `_drain`. -/
  drain : DrainTask α
  deriving DecidableEq

namespace HttpEmitter

/-- `__init__`. -/
def new (queueMax : ℕ) : HttpEmitter α where
  queueMax := queueMax
  q := []
  wake := false
  closed := false
  drain := .absent

/-- `_ensure_drain`: the task is created once, and only under a running loop. -/
def ensureDrain (s : HttpEmitter α) (runningLoop : Bool) : HttpEmitter α :=
  match s.drain with
  | .absent => if runningLoop then { s with drain := .created } else s
  | _ => s

/-- `emit`: append to the bounded deque, set the wake event, make sure there is a drain. -/
def emit (s : HttpEmitter α) (event : α) (runningLoop : Bool) : HttpEmitter α :=
  { s with q := BoundedQueue.push s.queueMax s.q event, wake := true }.ensureDrain runningLoop

/-- `_run` from the test of its `while` to the next await: leave the loop, wait for the
wake event after clearing it, or pop an event and POST it. -/
def loopHead (s : HttpEmitter α) : HttpEmitter α :=
  match s.q with
  | [] => if s.closed then { s with drain := .finished }
      else { s with wake := false, drain := .waiting }
  | event :: rest => { s with q := rest, drain := .posting event }

/-- `_run` once the wake event released it: pop, or on `IndexError` go round again. -/
def afterWake (s : HttpEmitter α) : HttpEmitter α :=
  match s.q with
  -- `except IndexError: continue`
  | [] => s.loopHead
  | event :: rest => { s with q := rest, drain := .posting event }

/-- The head of `aclose`. -/
def beginClose (s : HttpEmitter α) : HttpEmitter α := { s with closed := true, wake := true }

/-- `self._drain.cancel()`. -/
def cancelDrain (s : HttpEmitter α) : HttpEmitter α := { s with drain := .cancelled }

/-- `_ensure_drain` touches the drain task only. -/
theorem ensureDrain_eq (s : HttpEmitter α) (b : Bool) :
    s.ensureDrain b = { s with drain := (s.ensureDrain b).drain } := by
  rw [ensureDrain]
  split
  · split <;> rfl
  · rfl

@[simp]
theorem ensureDrain_q (s : HttpEmitter α) (b : Bool) : (s.ensureDrain b).q = s.q := by
  rw [ensureDrain_eq]

@[simp]
theorem ensureDrain_queueMax (s : HttpEmitter α) (b : Bool) :
    (s.ensureDrain b).queueMax = s.queueMax := by
  rw [ensureDrain_eq]

@[simp]
theorem ensureDrain_closed (s : HttpEmitter α) (b : Bool) :
    (s.ensureDrain b).closed = s.closed := by
  rw [ensureDrain_eq]

@[simp]
theorem inFlight_ensureDrain (s : HttpEmitter α) (b : Bool) :
    (s.ensureDrain b).drain.inFlight = s.drain.inFlight := by
  rw [ensureDrain]
  split
  · next h => split <;> simp [h, DrainTask.inFlight]
  · rfl

/-- A drain that exists is left alone. -/
theorem ensureDrain_of_ne_absent {s : HttpEmitter α} (h : s.drain ≠ .absent) (b : Bool) :
    s.ensureDrain b = s := by
  rw [ensureDrain]
  split
  · next habs => exact absurd habs h
  · rfl

theorem emit_drain {s : HttpEmitter α} (h : s.drain ≠ .absent) (event : α) (b : Bool) :
    (s.emit event b).drain = s.drain := by
  rw [emit, ensureDrain_of_ne_absent (by exact h)]

/-- The stretch from the loop test pops at most the event it starts to POST. -/
theorem inFlight_append_q_loopHead (s : HttpEmitter α) :
    s.loopHead.drain.inFlight ++ s.loopHead.q = s.q := by
  rw [loopHead]
  split
  · next h => split <;> simp [h, DrainTask.inFlight]
  · next h => simp [h, DrainTask.inFlight]

/-- The stretch from the loop test touches the queue, the wake event and the drain task. -/
theorem loopHead_eq (s : HttpEmitter α) :
    s.loopHead = { s with
      q := s.loopHead.q
      wake := s.loopHead.wake
      drain := s.loopHead.drain } := by
  rw [loopHead]
  split
  · split <;> rfl
  · rfl

theorem loopHead_queueMax (s : HttpEmitter α) : s.loopHead.queueMax = s.queueMax := by
  rw [loopHead_eq]

theorem loopHead_closed (s : HttpEmitter α) : s.loopHead.closed = s.closed := by
  rw [loopHead_eq]

/-- The drain runs on, or it finishes: on a closed emitter, with an empty queue. -/
theorem loopHead_drain (s : HttpEmitter α) :
    s.loopHead.drain.alive ∨
      s.loopHead.drain = .finished ∧ s.closed = true ∧ s.loopHead.q = [] := by
  rw [loopHead]
  split
  · next h =>
    split
    · next hc => exact .inr ⟨rfl, hc, h⟩
    · exact .inl rfl
  · exact .inl rfl

/-- After a wake-up the drain does what it does at the loop test: the re-check of the queue
by `popleft` and the one by the `while` agree. -/
theorem afterWake_eq_loopHead (s : HttpEmitter α) : s.afterWake = s.loopHead := by
  rw [afterWake]
  split
  · rfl
  · next h => simp [loopHead, h]

end HttpEmitter

/-! ### Runs with their history -/

/-- One call of `emit`: two calls with the same event are two emissions. -/
structure Emission (α : Type*) where
  seq : ℕ
  event : α
  deriving DecidableEq

/-- An emitter with the history of its run. -/
structure World (α : Type*) where
  emitter : HttpEmitter (Emission α)
  /-- Every `emit` call so far, in order. -/
  emitted : List (Emission α)
  /-- Every POST started. -/
  posts : List (Emission α)
  /-- The POSTs that ended, with a response or an exception. -/
  posted : List (Emission α)
  /-- What the deque dropped on overflow. -/
  dropped : List (Emission α)
  /-- What was in flight when `aclose` cancelled the drain. -/
  lost : List (Emission α)
  /-- How many drain tasks `create_task` has made. -/
  tasks : ℕ
  /-- `aclose` calls suspended on the drain task. -/
  joining : ℕ
  /-- `aclose` calls past it, suspended in `self._http.aclose()`. -/
  closing : ℕ
  deriving DecidableEq

/-- One uninterrupted stretch of the event loop. -/
inductive Action (α : Type*)
  /-- A producer calls `emit`, with or without a running event loop. -/
  | emit (event : α) (runningLoop : Bool)
  /-- The drain task runs for the first time. -/
  | start
  /-- `_wake.wait()` returns. -/
  | wakeUp
  /-- The one-second wait times out. -/
  | waitTimeout
  /-- The POST ends, with a response (`ok`) or an exception. -/
  | postEnds (ok : Bool)
  /-- `aclose` is called, under a running loop. -/
  | aclose
  /-- A suspended `aclose` sees the drain task ended. -/
  | joinDone
  /-- A suspended `aclose` times out, or is itself cancelled, and cancels the drain. -/
  | joinTimeout
  /-- `self._http.aclose()` is done and `aclose` returns. -/
  | acloseReturns

/-- The stretches of the drain task. -/
def Action.ofDrain : Action α → Bool
  | start | wakeUp | waitTimeout | postEnds _ => true
  | _ => false

namespace World

/-- A new emitter, before any call. -/
def init (queueMax : ℕ) : World α where
  emitter := .new queueMax
  emitted := []
  posts := []
  posted := []
  dropped := []
  lost := []
  tasks := 0
  joining := 0
  closing := 0

/-- The event in flight, if any. -/
def inFlight (w : World α) : List (Emission α) := w.emitter.drain.inFlight

/-- The emission that the next `emit` of `event` makes. -/
def emission (w : World α) (event : α) : Emission α := ⟨w.emitted.length, event⟩

/-- `emit`, with its history. -/
def emit (w : World α) (event : α) (runningLoop : Bool) : World α where
  emitter := w.emitter.emit (w.emission event) runningLoop
  emitted := w.emitted ++ [w.emission event]
  posts := w.posts
  posted := w.posted
  dropped := w.dropped ++ BoundedQueue.evicted w.emitter.queueMax w.emitter.q (w.emission event)
  lost := w.lost
  tasks := match w.emitter.drain with
    | .absent => if runningLoop then w.tasks + 1 else w.tasks
    | _ => w.tasks
  joining := w.joining
  closing := w.closing

/-- The drain runs a stretch that leaves the emitter in state `e`, the POST of `done` having
ended just before. -/
def drainTo (w : World α) (done : List (Emission α)) (e : HttpEmitter (Emission α)) :
    World α :=
  { w with emitter := e, posted := w.posted ++ done, posts := w.posts ++ e.drain.inFlight }

/-- The step function; `none` when the action is not enabled. -/
def step (w : World α) : Action α → Option (World α)
  | .emit event runningLoop => some (w.emit event runningLoop)
  | .start =>
    match w.emitter.drain with
    | .created => some (w.drainTo [] w.emitter.loopHead)
    | _ => none
  | .wakeUp =>
    match w.emitter.drain with
    | .waiting => if w.emitter.wake then some (w.drainTo [] w.emitter.afterWake) else none
    | _ => none
  | .waitTimeout =>
    match w.emitter.drain with
    -- `except TimeoutError: continue`
    | .waiting => some (w.drainTo [] w.emitter.loopHead)
    | _ => none
  | .postEnds _ =>
    match w.emitter.drain with
    -- `except Exception` swallows a failure, so that both outcomes go round the loop
    | .posting event => some (w.drainTo [event] w.emitter.loopHead)
    | _ => none
  | .aclose =>
    match w.emitter.drain with
    | .absent => some { w with emitter := w.emitter.beginClose, closing := w.closing + 1 }
    | _ => some { w with emitter := w.emitter.beginClose, joining := w.joining + 1 }
  | .joinDone =>
    if 0 < w.joining ∧ w.emitter.drain.alive = false then
      some { w with joining := w.joining - 1, closing := w.closing + 1 }
    else none
  | .joinTimeout =>
    if 0 < w.joining ∧ w.emitter.drain.alive = true then
      some { w with
        emitter := w.emitter.cancelDrain
        lost := w.lost ++ w.inFlight
        joining := w.joining - 1
        closing := w.closing + 1 }
    else none
  | .acloseReturns =>
    if 0 < w.closing then some { w with closing := w.closing - 1 } else none

/-! ### What a step can do -/

/-- Everything a step can do, with its guard. -/
inductive Effect (w : World α) : Action α → World α → Prop
  /-- A producer's `emit` is always enabled. -/
  | emit (event : α) (runningLoop : Bool) :
      Effect w (.emit event runningLoop) (w.emit event runningLoop)
  /-- The drain runs: the POST in flight, if any, has ended, and the loop goes round. -/
  | drain {a : Action α} (ha : a.ofDrain) (halive : w.emitter.drain.alive) :
      Effect w a (w.drainTo w.inFlight w.emitter.loopHead)
  /-- `aclose` finds no drain task and goes on to close the HTTP client. -/
  | closeAbsent (habsent : w.emitter.drain = .absent) :
      Effect w .aclose { w with emitter := w.emitter.beginClose, closing := w.closing + 1 }
  /-- `aclose` finds a drain task and waits for it. -/
  | closeJoin (hne : w.emitter.drain ≠ .absent) :
      Effect w .aclose { w with emitter := w.emitter.beginClose, joining := w.joining + 1 }
  | joinDone (hended : w.emitter.drain.alive = false) (hjoin : 0 < w.joining) :
      Effect w .joinDone { w with joining := w.joining - 1, closing := w.closing + 1 }
  | joinTimeout (halive : w.emitter.drain.alive) (hjoin : 0 < w.joining) :
      Effect w .joinTimeout
        { w with
          emitter := w.emitter.cancelDrain
          lost := w.lost ++ w.inFlight
          joining := w.joining - 1
          closing := w.closing + 1 }
  | acloseReturns (hclosing : 0 < w.closing) :
      Effect w .acloseReturns { w with closing := w.closing - 1 }

/-- **The inversion lemma.** Every invariant is read from this case analysis. -/
theorem step_effect {w w' : World α} {a : Action α} (h : w.step a = some w') :
    Effect w a w' := by
  have drains : ∀ done, a.ofDrain → w.emitter.drain.alive → w.inFlight = done →
      Effect w a (w.drainTo done w.emitter.loopHead) := by
    rintro done ha halive rfl
    exact .drain ha halive
  cases a with
  | emit event runningLoop =>
    obtain rfl := Option.some.inj h
    exact .emit event runningLoop
  | start | waitTimeout | postEnds =>
    cases hd : w.emitter.drain <;> simp only [step, hd, reduceCtorEq] at h
    obtain rfl := Option.some.inj h
    exact drains _ rfl (by rw [hd]; rfl) (by rw [inFlight, hd]; rfl)
  | wakeUp =>
    cases hd : w.emitter.drain <;> simp only [step, hd, reduceCtorEq] at h
    split at h
    · obtain rfl := Option.some.inj h
      rw [HttpEmitter.afterWake_eq_loopHead]
      exact drains _ rfl (by rw [hd]; rfl) (by rw [inFlight, hd]; rfl)
    · exact absurd h (by simp)
  | aclose =>
    by_cases habsent : w.emitter.drain = .absent
    · simp only [step, habsent] at h
      obtain rfl := Option.some.inj h
      exact .closeAbsent habsent
    · simp only [step] at h
      obtain rfl := Option.some.inj h
      exact .closeJoin habsent
  | joinDone =>
    simp only [step, Option.ite_none_right_eq_some] at h
    obtain ⟨⟨hjoin, hended⟩, h⟩ := h
    obtain rfl := Option.some.inj h
    exact .joinDone hended hjoin
  | joinTimeout =>
    simp only [step, Option.ite_none_right_eq_some] at h
    obtain ⟨⟨hjoin, halive⟩, h⟩ := h
    obtain rfl := Option.some.inj h
    exact .joinTimeout halive hjoin
  | acloseReturns =>
    simp only [step, Option.ite_none_right_eq_some] at h
    obtain ⟨hclosing, h⟩ := h
    obtain rfl := Option.some.inj h
    exact .acloseReturns hclosing

theorem step_queueMax {w w' : World α} {a : Action α} (h : w.step a = some w') :
    w'.emitter.queueMax = w.emitter.queueMax := by
  cases step_effect h with
  | emit event runningLoop => exact HttpEmitter.ensureDrain_queueMax _ _
  | drain => exact HttpEmitter.loopHead_queueMax _
  | closeAbsent | closeJoin | joinDone | joinTimeout | acloseReturns => rfl

/-! ### The conservation invariant -/

/-- Where an emitted event can be. -/
inductive Place
  | posted
  | inFlight
  | queued
  | dropped
  | lost
  deriving DecidableEq

/-- The events at a place. -/
def held (w : World α) : Place → List (Emission α)
  | .posted => w.posted
  | .inFlight => w.inFlight
  | .queued => w.emitter.q
  | .dropped => w.dropped
  | .lost => w.lost

/-- The places an event can be, in the order events move through them. -/
def Place.all : List Place := [.posted, .inFlight, .queued, .dropped, .lost]

theorem Place.mem_all (p : Place) : p ∈ Place.all := by
  cases p <;> decide

/-- What every reachable state keeps. -/
structure Conserved (w : World α) : Prop where
  /-- What was not dropped or lost is in the order of emission. -/
  order : (w.posted ++ w.inFlight ++ w.emitter.q).Sublist w.emitted
  /-- The places together hold every emission once. -/
  perm : (Place.all.flatMap w.held).Perm w.emitted
  numbered : w.emitted.map Emission.seq = List.range w.emitted.length
  bounded : w.emitter.q.length ≤ w.emitter.queueMax
  posts_eq : w.posts = w.posted ++ w.inFlight ++ w.lost
  cancelled_of_lost : w.lost ≠ [] → w.emitter.drain = .cancelled

theorem flatMap_held (w : World α) :
    Place.all.flatMap w.held = w.posted ++ w.inFlight ++ w.emitter.q ++ w.dropped ++ w.lost := by
  simp [Place.all, held]

theorem conserved_init (queueMax : ℕ) : Conserved (init queueMax : World α) where
  order := List.Sublist.refl _
  perm := List.Perm.refl _
  numbered := rfl
  bounded := Nat.zero_le _
  posts_eq := rfl
  cancelled_of_lost h := absurd rfl h

/-- While the drain is alive nothing has been lost. -/
theorem Conserved.lost_eq_nil {w : World α} (hw : Conserved w) (halive : w.emitter.drain.alive) :
    w.lost = [] := by
  by_contra hne
  rw [hw.cancelled_of_lost hne] at halive
  exact absurd halive (by simp [DrainTask.alive])

/-- A step of `aclose` that leaves the drain alone changes nothing of this. -/
theorem Conserved.of_close {w : World α} (hw : Conserved w) (e : HttpEmitter (Emission α))
    (hq : e.q = w.emitter.q) (hmax : e.queueMax = w.emitter.queueMax)
    (hdrain : e.drain = w.emitter.drain) (joining closing : ℕ) :
    Conserved { w with emitter := e, joining := joining, closing := closing } := by
  obtain ⟨horder, hperm, hnum, hbound, hposts, hlost⟩ := hw
  rw [flatMap_held] at hperm
  constructor
  case order => simpa only [inFlight, hq, hdrain] using horder
  case perm => simpa only [flatMap_held, inFlight, hq, hdrain] using hperm
  case numbered => exact hnum
  case bounded => simpa only [hq, hmax] using hbound
  case posts_eq => simpa only [inFlight, hdrain] using hposts
  case cancelled_of_lost => simpa only [hdrain] using hlost

theorem Conserved.emit {w : World α} (hw : Conserved w) (event : α) (runningLoop : Bool) :
    Conserved (w.emit event runningLoop) := by
  classical
  have hlost := hw.cancelled_of_lost
  obtain ⟨horder, hperm, hnum, -, hposts, -⟩ := hw
  rw [flatMap_held, List.perm_iff_count] at hperm
  have hq : (w.emit event runningLoop).emitter.q =
      BoundedQueue.push w.emitter.queueMax w.emitter.q (w.emission event) :=
    HttpEmitter.ensureDrain_q _ _
  have hin : (w.emit event runningLoop).inFlight = w.inFlight :=
    HttpEmitter.inFlight_ensureDrain _ _
  constructor
  case order =>
    have hpush : (BoundedQueue.push w.emitter.queueMax w.emitter.q (w.emission event)).Sublist
        (w.emitter.q ++ [w.emission event]) := List.drop_sublist _ _
    rw [hin, hq]
    refine (hpush.append_left _).trans ?_
    rw [← List.append_assoc]
    exact horder.append_right _
  case perm =>
    -- what the deque evicts goes to `dropped`, so that no event is lost or doubled
    rw [flatMap_held, List.perm_iff_count, hin, hq]
    intro e
    have hc := hperm e
    have hsplit := congrArg (List.count e)
      (BoundedQueue.evicted_append_push w.emitter.queueMax w.emitter.q (w.emission event))
    simp only [World.emit, List.count_append] at hc hsplit ⊢
    omega
  case numbered => simp [World.emit, hnum, List.range_succ, emission]
  case bounded =>
    rw [hq, show (w.emit event runningLoop).emitter.queueMax = w.emitter.queueMax from
      HttpEmitter.ensureDrain_queueMax _ _]
    exact BoundedQueue.length_push_le
  case posts_eq => rwa [hin]
  case cancelled_of_lost =>
    -- a cancelled drain is not `None`, so `_ensure_drain` does not replace it
    intro hne
    have hc := hlost hne
    exact (HttpEmitter.emit_drain (by rw [hc]; exact nofun) _ _).trans hc

theorem Conserved.drainTo {w : World α} (hw : Conserved w) (halive : w.emitter.drain.alive) :
    Conserved (w.drainTo w.inFlight w.emitter.loopHead) := by
  classical
  have hnil := hw.lost_eq_nil halive
  obtain ⟨horder, hperm, hnum, hbound, hposts, -⟩ := hw
  rw [flatMap_held, List.perm_iff_count] at hperm
  have hq : (w.drainTo w.inFlight w.emitter.loopHead).inFlight ++
      (w.drainTo w.inFlight w.emitter.loopHead).emitter.q = w.emitter.q :=
    w.emitter.inFlight_append_q_loopHead
  constructor
  case order =>
    rw [List.append_assoc, hq]
    exact horder
  case perm =>
    rw [flatMap_held, List.perm_iff_count]
    intro e
    have hc := hperm e
    have hs := congrArg (List.count e) hq
    simp only [World.drainTo, List.count_append] at hc hs ⊢
    omega
  case numbered => exact hnum
  case bounded =>
    have hlen := congrArg List.length hq
    rw [List.length_append] at hlen
    rw [show (w.drainTo w.inFlight w.emitter.loopHead).emitter.queueMax = w.emitter.queueMax from
      HttpEmitter.loopHead_queueMax _]
    omega
  case posts_eq =>
    simp only [World.drainTo, hposts, hnil, List.append_nil]
    rfl
  case cancelled_of_lost => exact fun hne => absurd hnil hne

theorem Conserved.cancel {w : World α} (hw : Conserved w) (halive : w.emitter.drain.alive)
    (joining closing : ℕ) :
    Conserved
      { w with
        emitter := w.emitter.cancelDrain
        lost := w.lost ++ w.inFlight
        joining := joining
        closing := closing } := by
  classical
  have hnil := hw.lost_eq_nil halive
  obtain ⟨horder, hperm, hnum, hbound, hposts, -⟩ := hw
  rw [flatMap_held, List.perm_iff_count] at hperm
  constructor
  case order =>
    -- the event in flight leaves the sequence, the others stay as they are
    have hdrop : (w.posted ++ [] ++ w.emitter.q).Sublist (w.posted ++ w.inFlight ++ w.emitter.q) :=
      ((List.nil_sublist _).append_left _).append_right _
    exact hdrop.trans horder
  case perm =>
    rw [flatMap_held, List.perm_iff_count]
    intro e
    have hc := hperm e
    simp only [inFlight, HttpEmitter.cancelDrain, DrainTask.inFlight, List.count_append,
      List.count_nil] at hc ⊢
    omega
  case numbered => exact hnum
  case bounded => exact hbound
  case posts_eq =>
    simp only [inFlight, HttpEmitter.cancelDrain, DrainTask.inFlight, hposts, hnil,
      List.append_nil, List.nil_append]
  case cancelled_of_lost => exact fun _ => rfl

/-- **The step lemma.** -/
theorem Conserved.step {w w' : World α} {a : Action α} (hw : Conserved w)
    (h : w.step a = some w') : Conserved w' := by
  cases step_effect h with
  | emit event runningLoop => exact hw.emit event runningLoop
  | drain _ halive => exact hw.drainTo halive
  | joinTimeout halive => exact hw.cancel halive _ _
  | closeAbsent | closeJoin => exact hw.of_close w.emitter.beginClose rfl rfl rfl _ _
  | joinDone | acloseReturns => exact hw.of_close w.emitter rfl rfl rfl _ _

/-- **The run lemma**: every reachable state is conserved. -/
theorem conserved_of_run {queueMax : ℕ} {acts : List (Action α)} {w : World α}
    (hrun : run World.step (init queueMax) acts = some w) : Conserved w :=
  run_invariant (I := Conserved) (fun _ _ _ hw h => hw.step h) (conserved_init queueMax) hrun

/-! ### Consequences of conservation -/

theorem Conserved.emitted_nodup {w : World α} (hw : Conserved w) : w.emitted.Nodup :=
  List.Nodup.of_map Emission.seq (hw.numbered ▸ List.nodup_range)

/-- Earlier emissions carry smaller numbers. -/
theorem Conserved.emitted_pairwise {w : World α} (hw : Conserved w) :
    w.emitted.Pairwise fun e e' => e.seq < e'.seq := by
  rw [← List.pairwise_map (f := Emission.seq), hw.numbered]
  exact List.pairwise_lt_range

theorem Conserved.mem_emitted_of_held {w : World α} (hw : Conserved w) {p : Place}
    {e : Emission α} (he : e ∈ w.held p) : e ∈ w.emitted :=
  hw.perm.mem_iff.mp (List.mem_flatMap.mpr ⟨p, p.mem_all, he⟩)

/-- An event is at no two places. -/
theorem Conserved.place_unique {w : World α} (hw : Conserved w) {p p' : Place}
    {e : Emission α} (he : e ∈ w.held p) (he' : e ∈ w.held p') : p = p' := by
  have hnodup := hw.perm.nodup_iff.mpr hw.emitted_nodup
  have hdisj := (List.nodup_flatMap.mp hnodup).2
  by_contra hne
  have hsymm : Std.Symm (Function.onFun List.Disjoint w.held) := ⟨fun _ _ h _ hx hy => h hy hx⟩
  exact hdisj.forall p.mem_all p'.mem_all hne he he'

/-- **Exactly one place** for every emission. -/
theorem Conserved.existsUnique_place {w : World α} (hw : Conserved w) {e : Emission α}
    (he : e ∈ w.emitted) : ∃! p, e ∈ w.held p := by
  obtain ⟨p, -, hp⟩ := List.mem_flatMap.mp (hw.perm.mem_iff.mpr he)
  exact ⟨p, hp, fun p' hp' => hw.place_unique hp' hp⟩

/-- No event is POSTed twice. -/
theorem Conserved.posts_nodup {w : World α} (hw : Conserved w) : w.posts.Nodup := by
  have hnodup := hw.perm.nodup_iff.mpr hw.emitted_nodup
  rw [flatMap_held] at hnodup
  have hsub : (w.posted ++ w.inFlight ++ w.lost).Sublist
      (w.posted ++ w.inFlight ++ w.emitter.q ++ w.dropped ++ w.lost) := by
    simp only [List.append_assoc]
    refine List.Sublist.append_left (List.Sublist.append_left ?_ _) _
    exact (List.sublist_append_right _ _).trans (List.sublist_append_right _ _)
  exact hw.posts_eq ▸ hnodup.sublist hsub

/-- What has been POSTed or dropped is not queued. -/
theorem Conserved.not_mem_q {w : World α} (hw : Conserved w) {e : Emission α}
    (he : e ∈ w.posts ∨ e ∈ w.dropped) : e ∉ w.emitter.q := by
  intro hq
  have hplace : ∃ p, p ≠ Place.queued ∧ e ∈ w.held p := by
    rcases he with he | he
    · rw [hw.posts_eq] at he
      rcases List.mem_append.mp he with he | he
      · rcases List.mem_append.mp he with he | he
        · exact ⟨.posted, by decide, he⟩
        · exact ⟨.inFlight, by decide, he⟩
      · exact ⟨.lost, by decide, he⟩
    · exact ⟨.dropped, by decide, he⟩
  obtain ⟨p, hne, hp⟩ := hplace
  exact hne (hw.place_unique hp hq)

end World

end Vfobs
