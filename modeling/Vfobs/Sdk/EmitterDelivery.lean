import Vfobs.Sdk.Emitter

/-!
# Delivery guarantees of the HTTP emitter

Two results about whole runs, both read from the invariant `World.Conserved`.

* `World.emitter_delivery`: in every reachable state the posted, in-flight and queued
  events are in the order of emission, every emission is in exactly one place, nothing is
  POSTed twice, the queue is bounded, there is at most one drain task, and the deque drops
  an event only when it is full, the oldest one first.
* `World.close_flushes_iff`: an `aclose` whose wait does not time out leaves nothing of
  what was emitted before it in the queue, *provided* the drain task exists when it is
  called (or there is nothing to flush). The condition is exact: `_ensure_drain` leaves the
  task to "a later emit/aclose", but `aclose` never calls it, so a tail that was emitted
  only outside a running loop stays in the queue (`close_keeps_tail`).
-/

namespace Vfobs

open StepSystem

variable {α : Type*}

namespace World

/-! ### Order, conservation and at-most-once -/

/-- The drain task is made at most once. -/
def OneTask (w : World α) : Prop :=
  w.emitter.drain = .absent ∧ w.tasks = 0 ∨ w.emitter.drain ≠ .absent ∧ w.tasks = 1

theorem loopHead_drain_ne_absent (s : HttpEmitter α) : s.loopHead.drain ≠ .absent := by
  rcases s.loopHead_drain with halive | ⟨hfin, -⟩
  · intro habs
    simp [habs, DrainTask.alive] at halive
  · simp [hfin]

theorem OneTask.emit {w : World α} (hw : OneTask w) (event : α) (runningLoop : Bool) :
    OneTask (w.emit event runningLoop) := by
  rcases hw with ⟨habs, htasks⟩ | ⟨hne, htasks⟩
  · cases runningLoop with
    | false => exact .inl (by simp [World.emit, HttpEmitter.emit, HttpEmitter.ensureDrain, *])
    | true => exact .inr (by simp [World.emit, HttpEmitter.emit, HttpEmitter.ensureDrain, *])
  · refine .inr ⟨?_, ?_⟩
    · rwa [World.emit, HttpEmitter.emit_drain hne]
    · rw [World.emit]
      split
      · next habs => exact absurd habs hne
      · exact htasks

theorem OneTask.step {w w' : World α} {a : Action α} (hw : OneTask w)
    (h : w.step a = some w') : OneTask w' := by
  have hone : w.emitter.drain.alive → w.tasks = 1 := by
    intro halive
    rcases hw with ⟨habs, -⟩ | ⟨-, htasks⟩
    · simp [habs, DrainTask.alive] at halive
    · exact htasks
  cases step_effect h with
  | emit event runningLoop => exact hw.emit event runningLoop
  | drain _ halive => exact .inr ⟨loopHead_drain_ne_absent _, hone halive⟩
  | joinTimeout halive => exact .inr ⟨by simp [HttpEmitter.cancelDrain], hone halive⟩
  | closeAbsent | closeJoin | joinDone | acloseReturns => exact hw

theorem OneTask.tasks_le {w : World α} (hw : OneTask w) : w.tasks ≤ 1 := by
  rcases hw with ⟨-, h⟩ | ⟨-, h⟩ <;> omega

theorem queueMax_of_run {queueMax : ℕ} {acts : List (Action α)} {w : World α}
    (hrun : run World.step (init queueMax) acts = some w) : w.emitter.queueMax = queueMax :=
  run_invariant (I := fun w : World α => w.emitter.queueMax = queueMax)
    (fun _ _ _ hw h => (step_queueMax h).trans hw) rfl hrun

/-- Only an `emit` on a full queue drops an event, and then the oldest one queued. -/
theorem Conserved.dropped_step {w w' : World α} {a : Action α} (hw : Conserved w)
    (hmax : 1 ≤ w.emitter.queueMax) (h : w.step a = some w') :
    w'.dropped = w.dropped ∨
      ∃ event runningLoop oldest rest, a = .emit event runningLoop ∧
        w.emitter.q.length = w.emitter.queueMax ∧ w.emitter.q = oldest :: rest ∧
        (∀ e ∈ rest, oldest.seq < e.seq) ∧ w'.dropped = w.dropped ++ [oldest] := by
  cases step_effect h with
  | emit event runningLoop =>
    rcases Nat.lt_or_ge w.emitter.q.length w.emitter.queueMax with hlt | hge
    · left
      simp only [World.emit, BoundedQueue.evicted_of_lt hlt, List.append_nil]
    · -- the queue is in the order of emission, so its head is its oldest event
      right
      have hfull : w.emitter.q.length = w.emitter.queueMax := Nat.le_antisymm hw.bounded hge
      obtain ⟨oldest, rest, hq⟩ := List.exists_cons_of_length_pos (l := w.emitter.q) (by omega)
      have hsub : w.emitter.q.Sublist w.emitted :=
        (List.sublist_append_right _ _).trans hw.order
      have hpair := hw.emitted_pairwise.sublist hsub
      rw [hq, List.pairwise_cons] at hpair
      refine ⟨event, runningLoop, oldest, rest, rfl, hfull, hq, hpair.1, ?_⟩
      simp only [World.emit, BoundedQueue.evicted_of_full hq hfull]
  | drain | closeAbsent | closeJoin | joinDone | joinTimeout | acloseReturns => exact .inl rfl

/-- **Conservation, order and at-most-once.** In every reachable state of an emitter with
`queue_max ≥ 1`: posted, in-flight and queued events keep the order of emission; every
emission is at exactly one place, and no place holds anything else; no event is POSTed
twice; the queue is bounded; one drain task at most was ever made; and a step drops an
event only if it is an `emit` on a full queue, the victim being the oldest one queued. -/
theorem emitter_delivery {queueMax : ℕ} (hmax : 1 ≤ queueMax) {acts : List (Action α)}
    {w : World α} (hrun : run World.step (init queueMax) acts = some w) :
    (w.posted ++ w.inFlight ++ w.emitter.q).Sublist w.emitted ∧ w.emitted.Nodup ∧
      (∀ e ∈ w.emitted, ∃! p, e ∈ w.held p) ∧ (∀ p, ∀ e ∈ w.held p, e ∈ w.emitted) ∧
      w.posts.Nodup ∧ w.emitter.q.length ≤ queueMax ∧ w.tasks ≤ 1 ∧
      ∀ a w', w.step a = some w' → w'.dropped = w.dropped ∨
        ∃ event runningLoop oldest rest, a = .emit event runningLoop ∧
          w.emitter.q.length = queueMax ∧ w.emitter.q = oldest :: rest ∧
          (∀ e ∈ rest, oldest.seq < e.seq) ∧ w'.dropped = w.dropped ++ [oldest] := by
  have hw := conserved_of_run hrun
  have hq := queueMax_of_run hrun
  have htask : OneTask w :=
    run_invariant (I := OneTask) (fun _ _ _ hw h => hw.step h) (.inl ⟨rfl, rfl⟩) hrun
  refine ⟨hw.order, hw.emitted_nodup, fun e he => hw.existsUnique_place he,
    fun p e he => hw.mem_emitted_of_held he, hw.posts_nodup, hq ▸ hw.bounded, htask.tasks_le,
    fun a w' h => ?_⟩
  have hdrop := hw.dropped_step (by omega) h
  rwa [hq] at hdrop

/-- Two emissions into a queue of one, the first of them in flight when a third arrives. -/
theorem emitter_delivery_full_queue :
    ∃ w : World Char,
      run World.step (init 1) [.emit 'a' true, .start, .emit 'b' true, .emit 'c' true] = some w ∧
        w.dropped = [⟨1, 'b'⟩] ∧ (w.posted ++ w.inFlight ++ w.emitter.q).Sublist w.emitted :=
  ⟨_, rfl, rfl, (@emitter_delivery _ 1 (Nat.le_refl 1) [.emit 'a' true, .start, .emit 'b' true,
    .emit 'c' true] _ rfl).1⟩

/-! ### What `aclose` flushes -/

/-- Every event emitted by the time of `w` has been handed to a POST or evicted in `w'`, and
none of them is left in the queue. -/
def Flushed (w w' : World α) : Prop :=
  ∀ e ∈ w.emitted, (e ∈ w'.posts ∨ e ∈ w'.dropped) ∧ e ∉ w'.emitter.q

/-- No `aclose` has been called. -/
structure Open (w : World α) : Prop where
  closed : w.emitter.closed = false
  joining : w.joining = 0
  closing : w.closing = 0
  running : w.emitter.drain = .absent ∨ w.emitter.drain.alive

theorem Open.step {w w' : World α} {a : Action α} (hw : Open w) (ha : a ≠ .aclose)
    (h : w.step a = some w') : Open w' := by
  obtain ⟨hclosed, hjoining, hclosing, hrunning⟩ := hw
  cases step_effect h with
  | emit event runningLoop =>
    refine ⟨(HttpEmitter.ensureDrain_closed _ _).trans hclosed, hjoining, hclosing, ?_⟩
    by_cases habs : w.emitter.drain = .absent
    · cases runningLoop
      · left; simp [World.emit, HttpEmitter.emit, HttpEmitter.ensureDrain, habs]
      · right; simp [World.emit, HttpEmitter.emit, HttpEmitter.ensureDrain, habs,
          DrainTask.alive]
    · rwa [World.emit, HttpEmitter.emit_drain habs]
  | drain _ halive =>
    refine ⟨(HttpEmitter.loopHead_closed _).trans hclosed, hjoining, hclosing, .inr ?_⟩
    rcases w.emitter.loopHead_drain with hd | ⟨-, hc, -⟩
    · exact hd
    · exact absurd hc (by simp [hclosed])
  | closeAbsent | closeJoin => exact absurd rfl ha
  | joinDone _ hj => omega
  | joinTimeout _ hj => omega
  | acloseReturns hc => omega

/-- What a run has handed over or evicted stays so. -/
theorem step_handed {w w' : World α} {a : Action α} (h : w.step a = some w') {e : Emission α}
    (he : e ∈ w.posts ∨ e ∈ w.dropped) : e ∈ w'.posts ∨ e ∈ w'.dropped := by
  cases step_effect h with
  | emit => exact he.imp_right (List.mem_append_left _)
  | drain => exact he.imp_left (List.mem_append_left _)
  | closeAbsent | closeJoin | joinDone | joinTimeout | acloseReturns => exact he

theorem step_emitted {w w' : World α} {a : Action α} (h : w.step a = some w') {e : Emission α}
    (he : e ∈ w.emitted) : e ∈ w'.emitted := by
  cases step_effect h with
  | emit => exact List.mem_append_left _ he
  | drain | closeAbsent | closeJoin | joinDone | joinTimeout | acloseReturns => exact he

/-- An emitter that is closing with a drain task: the invariant that carries the flush.
`w₀` is the state at the `aclose` call. -/
structure Closing (w₀ w : World α) : Prop where
  conserved : Conserved w
  emitted : ∀ e ∈ w₀.emitted, e ∈ w.emitted
  closed : w.emitter.closed = true
  drain : w.emitter.drain.alive ∨ w.emitter.drain = .finished
  finished_of_closing : 0 < w.closing → w.emitter.drain = .finished
  handed_of_finished : w.emitter.drain = .finished →
    ∀ e ∈ w₀.emitted, e ∈ w.posts ∨ e ∈ w.dropped

/-- With nothing queued, in flight or lost, every emission was handed over or evicted. -/
theorem Conserved.handed {w : World α} (hw : Conserved w) (hlost : w.lost = [])
    (hq : w.emitter.q = []) {e : Emission α} (he : e ∈ w.emitted) :
    e ∈ w.posts ∨ e ∈ w.dropped := by
  obtain ⟨p, hp, -⟩ := hw.existsUnique_place he
  rw [hw.posts_eq]
  cases p with
  | posted => exact .inl (List.mem_append_left _ (List.mem_append_left _ hp))
  | inFlight => exact .inl (List.mem_append_left _ (List.mem_append_right _ hp))
  | queued => exact absurd (hq ▸ hp : e ∈ []) (by simp)
  | dropped => exact .inr hp
  | lost => exact absurd (hlost ▸ hp : e ∈ []) (by simp)

theorem Closing.step {w₀ w w' : World α} {a : Action α} (hw : Closing w₀ w)
    (ha : a ≠ .joinTimeout) (h : w.step a = some w') : Closing w₀ w' := by
  have hcons := hw.conserved.step h
  have hemitted : ∀ e ∈ w₀.emitted, e ∈ w'.emitted := fun e he =>
    step_emitted h (hw.emitted e he)
  have hhanded : w.emitter.drain = .finished → ∀ e ∈ w₀.emitted, e ∈ w'.posts ∨ e ∈ w'.dropped :=
    fun hfin e he => step_handed h (hw.handed_of_finished hfin e he)
  obtain ⟨-, -, hclosed, hdrain, hclosing, -⟩ := hw
  have hne : w.emitter.drain ≠ .absent := by
    rintro habs
    simp [habs, DrainTask.alive] at hdrain
  cases step_effect h with
  | emit event runningLoop =>
    have hsame : (w.emit event runningLoop).emitter.drain = w.emitter.drain :=
      HttpEmitter.emit_drain hne _ _
    exact ⟨hcons, hemitted, (HttpEmitter.ensureDrain_closed _ _).trans hclosed, hsame ▸ hdrain,
      fun hc => hsame.trans (hclosing hc), fun hfin => hhanded (hsame ▸ hfin)⟩
  | drain _ halive =>
    -- no `aclose` is past a drain task that still runs
    have hnot : ¬ 0 < w.closing := fun hc => by
      simp [hclosing hc, DrainTask.alive] at halive
    refine ⟨hcons, hemitted, (HttpEmitter.loopHead_closed _).trans hclosed, ?_,
      fun hc => absurd hc hnot, fun hfin e he => ?_⟩
    · exact w.emitter.loopHead_drain.imp_right And.left
    · -- the drain just finished: its loop test saw an empty queue
      have hlost : (w.drainTo w.inFlight w.emitter.loopHead).lost = [] := by
        by_contra hne
        exact absurd (hfin.symm.trans (hcons.cancelled_of_lost hne)) (by simp)
      have hq : (w.drainTo w.inFlight w.emitter.loopHead).emitter.q = [] := by
        rcases w.emitter.loopHead_drain with hd | ⟨-, -, hq⟩
        · have hfin' : w.emitter.loopHead.drain = .finished := hfin
          simp [hfin', DrainTask.alive] at hd
        · exact hq
      exact hcons.handed hlost hq (hemitted e he)
  | closeAbsent habs => exact absurd habs hne
  | closeJoin => exact ⟨hcons, hemitted, rfl, hdrain, hclosing, hhanded⟩
  | joinDone hended =>
    have hfin : w.emitter.drain = .finished := by
      rcases hdrain with halive | hfin
      · exact absurd halive (by simp [hended])
      · exact hfin
    exact ⟨hcons, hemitted, hclosed, hdrain, fun _ => hfin, hhanded⟩
  | joinTimeout => exact absurd rfl ha
  | acloseReturns hc =>
    exact ⟨hcons, hemitted, hclosed, hdrain, fun _ => hclosing hc, hhanded⟩

/-- Without an `aclose` the emitter stays open. -/
theorem open_of_run {queueMax : ℕ} {acts : List (Action α)} {w : World α}
    (hacts : .aclose ∉ acts) (hrun : run World.step (init queueMax) acts = some w) : Open w :=
  run_invariant_of_forall_mem (I := Open) (P := fun a : Action α => a ≠ .aclose)
    (fun _ _ _ hw ha h => hw.step ha h) ⟨rfl, rfl, rfl, .inl rfl⟩
    (fun _ ha hc => hacts (hc ▸ ha)) hrun

/-- `aclose` on an emitter with a drain task starts to close it. -/
theorem Closing.of_aclose {w w' : World α} (hw : Conserved w) (hopen : Open w)
    (hdrain : w.emitter.drain ≠ .absent) (h : w.step .aclose = some w') : Closing w w' := by
  have hcons := hw.step h
  have halive : w.emitter.drain.alive := hopen.running.resolve_left hdrain
  cases step_effect h with
  | drain ha => exact absurd ha (by simp [Action.ofDrain])
  | closeAbsent habs => exact absurd habs hdrain
  | closeJoin =>
    refine ⟨hcons, fun e he => he, rfl, .inl halive, fun hc => ?_, fun hfin => ?_⟩
    · exact absurd hc (by simp [hopen.closing])
    · have hfin' : w.emitter.drain = .finished := hfin
      simp [hfin', DrainTask.alive] at halive

/-- **Close flushes**, when there is a drain task to join or nothing to flush. -/
theorem flushed_of_drain_or_empty {w w' : World α} (hw : Conserved w) (hopen : Open w)
    (hdrain : w.emitter.drain ≠ .absent ∨ w.emitter.q = []) {rest : List (Action α)}
    (hrest : .joinTimeout ∉ rest)
    (hrun : run World.step w (.aclose :: (rest ++ [.acloseReturns])) = some w') :
    Flushed w w' := by
  have hend := run_invariant (I := Conserved) (fun _ _ _ hw h => hw.step h) hw hrun
  suffices hhanded : ∀ e ∈ w.emitted, e ∈ w'.posts ∨ e ∈ w'.dropped from
    fun e he => ⟨hhanded e he, hend.not_mem_q (hhanded e he)⟩
  by_cases habs : w.emitter.drain = .absent
  · -- no drain task: nothing is queued, so all of it was handed over or evicted before
    have hlost : w.lost = [] := by
      by_contra hne
      exact absurd (habs.symm.trans (hw.cancelled_of_lost hne)) (by simp)
    have hq := hdrain.resolve_left fun h => h habs
    intro e he
    exact run_invariant (I := fun w : World α => e ∈ w.posts ∨ e ∈ w.dropped)
      (fun _ _ _ hmem h => step_handed h hmem) (hw.handed hlost hq he) hrun
  · -- the drain task: `aclose` returns only once it has finished, with an empty queue
    obtain ⟨w₁, haclose, hrest'⟩ := run_cons_eq_some.mp hrun
    obtain ⟨w₂, hmid, hlast⟩ := run_append.mp hrest'
    obtain ⟨w₃, hret, hw₃⟩ := run_cons_eq_some.mp hlast
    obtain rfl := Option.some.inj hw₃
    have hclosing : Closing w w₂ :=
      run_invariant_of_forall_mem (I := Closing w) (P := fun a : Action α => a ≠ .joinTimeout)
        (fun _ _ _ hw ha h => hw.step ha h) (.of_aclose hw hopen habs haclose)
        (fun a ha hc => hrest (hc ▸ ha)) hmid
    have hreturned : 0 < w₂.closing := by
      simp only [World.step, Option.ite_none_right_eq_some] at hret
      exact hret.1
    intro e he
    exact step_handed hret
      (hclosing.handed_of_finished (hclosing.finished_of_closing hreturned) e he)

/-- Without a drain task `aclose` can return at once, the queue as it was. -/
theorem run_aclose_of_absent {w : World α} (habs : w.emitter.drain = .absent) :
    ∃ w', run World.step w [.aclose, .acloseReturns] = some w' ∧
      w'.emitter.q = w.emitter.q := by
  refine ⟨{ w with emitter := w.emitter.beginClose }, ?_, rfl⟩
  simp [World.step, habs]

/-- **When close flushes.** Take any run up to an `aclose` call, under any mix of emits with
and without a running loop and of drain steps. Every way to go on to the return of `aclose`
in which its wait does not time out flushes what was emitted before the call, if and only if
at the call the drain task exists or the queue is empty. -/
theorem close_flushes_iff {queueMax : ℕ} {acts : List (Action α)} {w : World α}
    (hacts : .aclose ∉ acts) (hrun : run World.step (init queueMax) acts = some w) :
    (∀ rest w', .joinTimeout ∉ rest →
        run World.step w (.aclose :: (rest ++ [.acloseReturns])) = some w' → Flushed w w') ↔
      w.emitter.drain ≠ .absent ∨ w.emitter.q = [] := by
  have hw := conserved_of_run hrun
  constructor
  · -- otherwise `aclose` may return at once, and leave the queue as it was
    intro hall
    by_contra hnot
    obtain ⟨habs, hq⟩ : w.emitter.drain = .absent ∧ w.emitter.q ≠ [] := by
      simpa only [not_or, not_not, ne_eq] using hnot
    obtain ⟨w', hw', hsame⟩ := run_aclose_of_absent habs
    obtain ⟨e, he⟩ := List.exists_mem_of_ne_nil _ hq
    have hflushed := hall [] w' (by simp) hw' e (hw.mem_emitted_of_held (p := .queued) he)
    exact hflushed.2 (hsame ▸ he)
  · exact fun hdrain rest w' hrest hgo =>
      flushed_of_drain_or_empty hw (open_of_run hacts hrun) hdrain hrest hgo

/-- One event emitted under a running loop is flushed by every close. -/
theorem close_flushes_iff_running :
    ∃ w : World Char, run World.step (init 5) [.emit 'a' true] = some w ∧
      ∀ rest w', .joinTimeout ∉ rest →
        run World.step w (.aclose :: (rest ++ [.acloseReturns])) = some w' → Flushed w w' :=
  ⟨_, rfl, (@close_flushes_iff _ 5 [.emit 'a' true] _ (by simp) rfl).mpr (.inl nofun)⟩

/-- The tail emitted outside a running loop is still queued when `aclose` has returned. -/
theorem close_keeps_tail :
    ¬ ∀ (queueMax : ℕ) (acts rest : List (Action Char)) (w w' : World Char),
      .aclose ∉ acts → run World.step (init queueMax) acts = some w → .joinTimeout ∉ rest →
      run World.step w (.aclose :: (rest ++ [.acloseReturns])) = some w' → Flushed w w' := by
  intro hall
  have hflushed := hall 5 [.emit 'a' false] [] _ _ (by simp) rfl (by simp) rfl
  exact (hflushed ⟨0, 'a'⟩ (by decide)).2 (by decide)

end World

end Vfobs
