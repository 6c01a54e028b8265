import Vfobs.Foundations.Exceptions
import Vfobs.Foundations.RateLimiter
import Vfobs.Sdk.Emitter
import Mathlib.Algebra.Order.Field.Rat
import Mathlib.Data.List.Induction

/-!
# Warnings about failed deliveries

The drain task of the emitter swallows the exception of a POST and hands it to `_warn`, which
writes to the log unless it did so less than a minute ago. `deliver` is that tail of a turn of
`_run`, on the outcome of the POST and the value that the monotonic clock shows; the limiter
starts as if it had warned at the clock's zero.

Only an exception is warned about. A response of any status returns normally from the POST, and
`_run` does not look at its status, so that a service that refuses every event goes unnoticed
(`refusal_goes_unnoticed`). `never_silent_iff` says when the log tells of every failure: when
each exception comes at least a minute after the clock's zero, and each refusal within a minute
after a warning.
-/

namespace Vfobs

/-- How the POST of a delivery ends. -/
inductive PostOutcome
  | response (statusCode : ℕ)
  | raises (e : PyException)

/-- A delivery of the drain task: its outcome, and what the clock shows when it is there. -/
structure Delivery where
  time : ℚ
  outcome : PostOutcome

/-- An exception, or a response outside the `2xx`. -/
def Delivery.Failed (d : Delivery) : Prop :=
  match d.outcome with
  | .response statusCode => ¬ (200 ≤ statusCode ∧ statusCode < 300)
  | .raises _ => True

/-- `_warn_every`. -/
def warnEvery : ℚ := 60

/-- `_last_warn`, with the times of the warnings in the log. -/
abbrev WarnState : Type := Limiter ℚ

namespace WarnState

/-- `__init__`. -/
def new : WarnState := Limiter.new 0

/-- `_warn`, when the clock shows `now`. -/
def warn (s : WarnState) (now : ℚ) : WarnState := s.offer warnEvery now

/-- What `_run` does when a POST is over. -/
def deliver (s : WarnState) (d : Delivery) : WarnState :=
  match d.outcome with
  -- the response is not looked at
  | .response _ => s
  | .raises _ => s.warn d.time

/-- A sequence of deliveries. -/
def deliverAll (ds : List Delivery) : WarnState := ds.foldl deliver new

end WarnState

open WarnState

/-- The log tells of every failure within a minute, and no two warnings are closer than that. -/
structure NeverSilent (ds : List Delivery) : Prop where
  told : ∀ pre d post, ds = pre ++ d :: post → d.Failed →
    ∃ t ∈ (deliverAll (pre ++ [d])).log, d.time - 60 < t ∧ t ≤ d.time
  spaced : (deliverAll ds).log.Pairwise fun a b => 60 ≤ b - a

/-- What a failed delivery must meet to be told of, after the deliveries before it: an exception
comes when the clock shows a minute or more, a refusal less than a minute after a warning. -/
def Noticed (s : WarnState) (d : Delivery) : Prop :=
  match d.outcome with
  | .response _ => ∃ t ∈ s.log, d.time - 60 < t
  | .raises _ => 60 ≤ d.time

/-! ### The limiter over a run -/

theorem deliverAll_concat (ds : List Delivery) (d : Delivery) :
    deliverAll (ds ++ [d]) = (deliverAll ds).deliver d :=
  List.foldl_concat ..

/-- A delivery logs its own time or nothing. -/
theorem mem_log_deliver {s : WarnState} {d : Delivery} {t : ℚ} (ht : t ∈ (s.deliver d).log) :
    t ∈ s.log ∨ t = d.time := by
  rw [deliver] at ht
  split at ht
  · exact .inl ht
  · exact Limiter.mem_log_offer ht

theorem spaced_deliver {s : WarnState} (hs : s.Spaced warnEvery 0) (d : Delivery) :
    (s.deliver d).Spaced warnEvery 0 := by
  rw [deliver]
  split
  · exact hs
  · exact hs.offer (by decide)

theorem spaced_deliverAll (ds : List Delivery) : (deliverAll ds).Spaced warnEvery 0 := by
  induction ds using List.reverseRecOn with
  | nil => exact Limiter.spaced_new
  | append_singleton ds d ih =>
    rw [deliverAll_concat]
    exact spaced_deliver ih d

/-- A warning has the time of a delivery. -/
theorem exists_delivery_of_mem_log {ds : List Delivery} {t : ℚ} (ht : t ∈ (deliverAll ds).log) :
    ∃ d ∈ ds, t = d.time := by
  induction ds using List.reverseRecOn with
  | nil => exact nomatch ht
  | append_singleton ds d ih =>
    rw [deliverAll_concat] at ht
    rcases mem_log_deliver ht with hold | hnew
    · obtain ⟨d', hd', rfl⟩ := ih hold
      exact ⟨d', List.mem_append_left _ hd', rfl⟩
    · exact ⟨d, by simp, hnew⟩

variable {pre post : List Delivery} {d : Delivery}

/-- Warnings are not later than the delivery that follows. -/
theorem le_time_of_mem_log
    (hclock : ((pre ++ d :: post).map Delivery.time).Pairwise (· ≤ ·)) {t : ℚ}
    (ht : t ∈ (deliverAll pre).log) : t ≤ d.time := by
  obtain ⟨d', hd', rfl⟩ := exists_delivery_of_mem_log ht
  rw [List.pairwise_map] at hclock
  exact (List.pairwise_append.mp hclock).2.2 d' hd' d (List.mem_cons_self)

/-- **One delivery**: a warning is in the log within a minute if and only if it is noticed. -/
theorem exists_warning_iff
    (hclock : ((pre ++ d :: post).map Delivery.time).Pairwise (· ≤ ·)) :
    (∃ t ∈ (deliverAll (pre ++ [d])).log, d.time - 60 < t ∧ t ≤ d.time) ↔
      Noticed (deliverAll pre) d := by
  have hle : ∀ t ∈ (deliverAll (pre ++ [d])).log, t ≤ d.time := by
    intro t ht
    rw [deliverAll_concat] at ht
    exact (mem_log_deliver ht).elim (le_time_of_mem_log hclock) le_of_eq
  have hdrop : (∃ t ∈ (deliverAll (pre ++ [d])).log, d.time - 60 < t ∧ t ≤ d.time) ↔
      ∃ t ∈ (deliverAll (pre ++ [d])).log, d.time - 60 < t :=
    exists_congr fun t => and_congr_right fun ht => and_iff_left (hle t ht)
  rw [hdrop, deliverAll_concat, deliver, Noticed]
  cases houtcome : d.outcome with
  | response statusCode => rfl
  | raises e =>
    have hrecent := Limiter.exists_recent_offer_iff (spaced_deliverAll pre)
      (by decide : (0 : ℚ) < warnEvery) fun t ht => le_time_of_mem_log hclock ht
    rwa [sub_zero] at hrecent

/-- **When no failure goes untold.** For every sequence of deliveries at non-decreasing times of
the clock: warnings are never less than a minute apart, and the log tells of every failure if and
only if every failure is noticed. -/
theorem never_silent_iff {ds : List Delivery}
    (hclock : (ds.map Delivery.time).Pairwise (· ≤ ·)) :
    NeverSilent ds ↔
      ∀ pre d post, ds = pre ++ d :: post → d.Failed → Noticed (deliverAll pre) d := by
  constructor
  · rintro hsilent pre d post rfl hfailed
    exact (exists_warning_iff hclock).mp (hsilent.told pre d post rfl hfailed)
  · intro hnoticed
    refine ⟨?_, (spaced_deliverAll ds).spaced⟩
    rintro pre d post rfl hfailed
    exact (exists_warning_iff hclock).mpr (hnoticed pre d post rfl hfailed)

/-- An exception, with the clock past its first minute. -/
theorem never_silent_iff_timeout : NeverSilent [⟨100, .raises (.other "ReadTimeout" "")⟩] := by
  refine (never_silent_iff (List.pairwise_singleton _ _)).mpr fun pre d post hds _ => ?_
  obtain ⟨-, h⟩ | ⟨-, h⟩ := List.singleton_eq_append_iff.mp hds
  · obtain ⟨rfl, -⟩ := List.cons.inj h
    exact (by decide : (60 : ℚ) ≤ 100)
  · exact nomatch h

/-- **No response is warned about**, whatever its status. -/
theorem deliverAll_of_responses {ds : List Delivery}
    (hresponses : ∀ d ∈ ds, ∃ statusCode, d.outcome = .response statusCode) :
    deliverAll ds = WarnState.new := by
  induction ds using List.reverseRecOn with
  | nil => rfl
  | append_singleton ds d ih =>
    obtain ⟨statusCode, houtcome⟩ := hresponses d (by simp)
    rw [deliverAll_concat, ih fun d' hd' => hresponses d' (List.mem_append_left _ hd'), deliver,
      houtcome]

/-- The service refuses the token of the emitter: the event is gone, and the log is empty. -/
theorem refusal_goes_unnoticed :
    ¬ NeverSilent [⟨1000, .response 401⟩] ∧ (deliverAll [⟨1000, .response 401⟩]).log = [] := by
  have hlog : deliverAll [⟨1000, .response 401⟩] = WarnState.new :=
    deliverAll_of_responses (by simp)
  refine ⟨fun hsilent => ?_, by rw [hlog]; rfl⟩
  obtain ⟨t, ht, -⟩ := hsilent.told [] _ [] rfl (by simp [Delivery.Failed])
  rw [List.nil_append, hlog] at ht
  exact nomatch ht

/-! ### The deliveries of a run of the emitter -/

section run

open StepSystem

variable {α : Type*}

/-- How the POST that a stretch sees the end of has ended: `true` stands for a response. -/
def Action.postEnded? : Action α → Option Bool
  | .postEnds ok => some ok
  | _ => none

/-- A stretch of the drain sees the end of a POST exactly when one is in flight. -/
theorem World.length_inFlight {w w' : World α} {a : Action α} (h : w.step a = some w')
    (ha : a.ofDrain) : w.inFlight.length = a.postEnded?.toList.length := by
  rw [World.inFlight]
  cases a with
  | start | wakeUp | waitTimeout | postEnds =>
    -- the step is enabled in one state of the drain only
    cases hd : w.emitter.drain <;> simp only [World.step, hd, reduceCtorEq] at h
    rfl
  | emit | aclose | joinDone | joinTimeout | acloseReturns => cases ha

/-- A stretch that sees the end of a POST delivers one event, and no other does. -/
theorem World.length_posted_step {w w' : World α} {a : Action α} (h : w.step a = some w') :
    w'.posted.length = w.posted.length + a.postEnded?.toList.length := by
  cases World.step_effect h with
  | drain ha => rw [← World.length_inFlight h ha, World.drainTo, List.length_append]
  | emit | closeAbsent | closeJoin | joinDone | joinTimeout | acloseReturns => rfl

/-- **One delivery for each event posted**: a list of deliveries that goes with the stretches of a
run is as long as the list of the events whose POST has ended. -/
theorem length_deliveries_of_run {queueMax : ℕ} {acts : List (Action α)} {w : World α}
    (hrun : run World.step (World.init queueMax) acts = some w) {ds : List Delivery}
    (hds : ds.map (fun d => d.outcome matches .response _) =
      acts.filterMap Action.postEnded?) : ds.length = w.posted.length := by
  have hposted : ∀ {w₀ : World α} {acts : List (Action α)}, run World.step w₀ acts = some w →
      w.posted.length = w₀.posted.length + (acts.filterMap Action.postEnded?).length := by
    intro w₀ acts hrun
    induction acts generalizing w₀ with
    | nil => rw [← Option.some.inj hrun]; rfl
    | cons a acts ih =>
      obtain ⟨w₁, hstep, hrest⟩ := run_cons_eq_some.mp hrun
      rw [ih hrest, World.length_posted_step hstep, List.filterMap_cons]
      cases a.postEnded? with
      | none => rfl
      | some ok =>
        simp only [Option.toList_some, List.length_cons, List.length_nil]
        omega
  rw [hposted hrun, ← hds, List.length_map]
  exact (Nat.zero_add _).symm

end run

end Vfobs
