import Vfobs.Foundations.Exceptions
import Vfobs.Sdk.Emitter

/-!
# The wake event of the emitter, and how its drain ends

The drain clears the wake event and then waits for it, with no await in between, and whoever
gives it something to do sets the event: so while it waits it has nothing to do or the event is
set. `Awake` is that invariant, which every reachable state has (`awake_of_run`).

The stretches of `_run` are also written with the exception that `popleft` raises on an empty
deque, `whileTest` and `tryPop`. It never escapes: they come to the same as `loopHead` and
`afterWake`, after at most one `continue` (`stretch_eq`).

`no_lost_wakeUp` puts these together for every interleaving.
-/

namespace Vfobs

open StepSystem

variable {α : Type*}

namespace HttpEmitter

/-! ### `_run` with its exceptions -/

/-- `self._q.popleft()`: the event and the rest of the deque. -/
def popleft : List α → Except PyException (α × List α)
  | [] => .error (.other "IndexError" "pop from an empty deque")
  | event :: rest => .ok (event, rest)

/-- An exception that `except IndexError` catches. -/
def isIndexError : PyException → Bool
  | .other cls _ => cls = "IndexError"
  | _ => false

/-- `_run` from the `try` around `popleft` to the next await; `again` is the `continue`. -/
def tryPop (again : HttpEmitter α → Option (Except PyException (HttpEmitter α)))
    (s : HttpEmitter α) : Option (Except PyException (HttpEmitter α)) :=
  match popleft s.q with
  | .ok (event, rest) => some (.ok { s with q := rest, drain := .posting event })
  | .error e => if isIndexError e then again s else some (.error e)

/-- `_run` from the test of its `while` to the next await, or to its end; `none` when it goes
round more often than `rounds`. -/
def whileTest : ℕ → HttpEmitter α → Option (Except PyException (HttpEmitter α))
  | 0, _ => none
  | rounds + 1, s =>
    if s.closed = false ∨ s.q ≠ [] then
      if s.q = [] then some (.ok { s with wake := false, drain := .waiting })
      else tryPop (whileTest rounds) s
    else some (.ok { s with drain := .finished })

/-- What the drain runs in a stretch. -/
def stretch {β : Type*} (rounds : ℕ) : Action β → HttpEmitter α →
    Option (Except PyException (HttpEmitter α))
  | .start | .waitTimeout | .postEnds _ => whileTest rounds
  | .wakeUp => tryPop (whileTest rounds)
  | _ => fun _ => none

theorem whileTest_eq (rounds : ℕ) (s : HttpEmitter α) :
    s.whileTest (rounds + 1) = some (.ok s.loopHead) := by
  cases hq : s.q with
  | nil =>
    cases hc : s.closed <;> simp [whileTest, loopHead, hq, hc]
  | cons event rest => simp [whileTest, tryPop, popleft, loopHead, hq]

/-- The `continue` after an `IndexError` ends at the `while`. -/
theorem tryPop_eq (rounds : ℕ) (s : HttpEmitter α) :
    s.tryPop (whileTest (rounds + 1)) = some (.ok s.afterWake) := by
  cases hq : s.q with
  | nil => simp [tryPop, popleft, isIndexError, whileTest_eq, afterWake, hq]
  | cons event rest => simp [tryPop, popleft, afterWake, hq]

/-! ### What the operations do to the wake event -/

@[simp]
theorem ensureDrain_wake (s : HttpEmitter α) (b : Bool) : (s.ensureDrain b).wake = s.wake := by
  rw [ensureDrain_eq]

/-- `emit` sets the wake event. -/
theorem emit_wake (s : HttpEmitter α) (event : α) (b : Bool) : (s.emit event b).wake = true :=
  ensureDrain_wake _ _

/-- The drain goes to wait only with nothing to do. -/
theorem loopHead_waiting {s : HttpEmitter α} (h : s.loopHead.drain = .waiting) :
    s.loopHead.q = [] ∧ s.loopHead.closed = false := by
  rw [loopHead_closed]
  cases hq : s.q with
  | nil => cases hc : s.closed <;> simp_all [loopHead]
  | cons event rest => simp [loopHead, hq] at h

theorem ensureDrain_finished {s : HttpEmitter α} {b : Bool}
    (h : (s.ensureDrain b).drain = .finished) : s.drain = .finished := by
  rw [ensureDrain] at h
  split at h
  · next habsent =>
    split at h
    · cases h
    · exact h
  · exact h

end HttpEmitter

namespace World

variable {w w' : World α} {a : Action α}

/-- While the drain waits it has nothing to do, or the wake event is set. -/
def Awake (w : World α) : Prop :=
  w.emitter.drain = .waiting → w.emitter.q ≠ [] ∨ w.emitter.closed = true → w.emitter.wake = true

theorem awake_init (queueMax : ℕ) : Awake (init queueMax : World α) := nofun

/-- **The step lemma.** -/
theorem Awake.step (hw : Awake w) (h : w.step a = some w') : Awake w' := by
  cases step_effect h with
  | emit event runningLoop => exact fun _ _ => HttpEmitter.emit_wake _ _ _
  | drain =>
    intro hwaiting hdo
    obtain ⟨hq, hclosed⟩ := HttpEmitter.loopHead_waiting hwaiting
    rcases hdo with hdo | hdo
    · exact absurd hq hdo
    · exact absurd (hclosed.symm.trans hdo) Bool.false_ne_true
  | closeAbsent | closeJoin => exact fun _ _ => rfl
  | joinDone | acloseReturns => exact hw
  | joinTimeout => exact fun hwaiting => nomatch hwaiting

/-- **The run lemma.** -/
theorem awake_of_run {queueMax : ℕ} {acts : List (Action α)}
    (hrun : run World.step (init queueMax) acts = some w) : Awake w :=
  run_invariant (I := Awake) (fun _ _ _ hw h => hw.step h) (awake_init queueMax) hrun

/-- An awake drain is not left to its timeout: it can be woken up at once. -/
theorem exists_step_wakeUp (hdrain : w.emitter.drain = .waiting) (hwake : w.emitter.wake = true) :
    ∃ w', w.step .wakeUp = some w' := by
  rw [World.step, hdrain]
  exact ⟨_, if_pos hwake⟩

/-- The drain returns from `_run` on a closed emitter with an empty queue. -/
theorem closed_of_finishes (h : w.step a = some w') (hbefore : w.emitter.drain ≠ .finished)
    (hafter : w'.emitter.drain = .finished) :
    w'.emitter.closed = true ∧ w'.emitter.q = [] := by
  cases step_effect h with
  | emit event runningLoop => exact absurd (HttpEmitter.ensureDrain_finished hafter) hbefore
  | drain =>
    rcases w.emitter.loopHead_drain with halive | ⟨-, hclosed, hq⟩
    · rw [show w.emitter.loopHead.drain = .finished from hafter] at halive
      cases halive
    · exact ⟨(HttpEmitter.loopHead_closed _).trans hclosed, hq⟩
  | closeAbsent | closeJoin | joinDone | acloseReturns => exact absurd hafter hbefore
  | joinTimeout => cases hafter

/-- **No exception escapes a stretch of the drain**, which comes to what the step says. -/
theorem stretch_eq (ha : a.ofDrain) (h : w.step a = some w') (rounds : ℕ) :
    w.emitter.stretch (rounds + 1) a = some (.ok w'.emitter) := by
  have hemitter : w'.emitter = w.emitter.loopHead := by
    cases step_effect h with
    | drain => rfl
    | emit | closeAbsent | closeJoin | joinDone | joinTimeout | acloseReturns => cases ha
  rw [hemitter]
  cases a with
  | start | waitTimeout | postEnds => exact HttpEmitter.whileTest_eq rounds w.emitter
  | wakeUp =>
    rw [← HttpEmitter.afterWake_eq_loopHead]
    exact HttpEmitter.tryPop_eq rounds w.emitter
  | emit | aclose | joinDone | joinTimeout | acloseReturns => cases ha

/-- **No lost wake-up, and a clean exit**, whatever producers, closers and the drain do in
between. -/
theorem no_lost_wakeUp {queueMax : ℕ} {acts : List (Action α)} {w : World α}
    (hrun : run World.step (init queueMax) acts = some w) :
    (w.emitter.drain = .waiting → w.emitter.q ≠ [] ∨ w.emitter.closed = true →
      w.emitter.wake = true ∧ ∃ w', w.step .wakeUp = some w') ∧
    ∀ a w', w.step a = some w' →
      (w.emitter.drain ≠ .finished → w'.emitter.drain = .finished →
        w'.emitter.closed = true ∧ w'.emitter.q = []) ∧
      (a.ofDrain → ∀ rounds, 0 < rounds → w.emitter.stretch rounds a = some (.ok w'.emitter)) := by
  refine ⟨fun hwaiting hdo => ?_, fun a w' h => ⟨closed_of_finishes h, fun ha rounds hpos => ?_⟩⟩
  · have hwake := awake_of_run hrun hwaiting hdo
    exact ⟨hwake, exists_step_wakeUp hwaiting hwake⟩
  · obtain ⟨rounds, rfl⟩ := Nat.exists_eq_add_of_lt hpos
    rw [Nat.zero_add]
    exact stretch_eq ha h rounds

/-- A producer's `emit` finds the drain waiting and wakes it. -/
theorem no_lost_wakeUp_emitted :
    let acts : List (Action ℕ) := [.emit 1 true, .start, .postEnds true, .emit 2 true]
    ∃ w, run World.step (init 5) acts = some w ∧ w.emitter.drain = .waiting ∧
      w.emitter.wake = true := by
  intro acts
  obtain ⟨w, hrun, hdrain, hq⟩ : ∃ w, run World.step (init 5) acts = some w ∧
      w.emitter.drain = .waiting ∧ w.emitter.q ≠ [] := ⟨_, rfl, rfl, by decide⟩
  exact ⟨w, hrun, hdrain, ((no_lost_wakeUp hrun).1 hdrain (.inl hq)).1⟩

end World

end Vfobs
