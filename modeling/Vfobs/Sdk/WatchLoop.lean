import Vfobs.Sdk.Alerts
import Vfobs.Sdk.WireFidelity

/-!
# The exit code of `vfobs-watch`

`main` polls until a verdict is an alert, or its reason is the text `"terminal"`. The verdicts
come from three places: the rules, `evaluate` when no rule raises anything, and `_watch_once`
when the read fails. `main` is given the polls so far, each with what the read came to and the
clock, and is `none` while it goes on.

`watch_exit_code`: the text decides as it should. The watcher leaves with `2` at the first poll
that alerts, with `0` at the first one whose history is terminal, whichever comes first, and
polls on as long as there is neither.
-/

namespace Vfobs

/-- What the read of one poll comes to. -/
inductive Poll
  /-- `ReadUnavailable`, with its message. -/
  | unavailable (message : String)
  /-- The views of the task's events, and `datetime.now(UTC)`. -/
  | read (events : List StoredEventView) (now : ℤ)

/-- How `main` ends. -/
inductive Exit
  | code (n : ℕ)
  /-- An exception that nothing takes. -/
  | raised

variable (fromisoformat : String → Option Datetime)

/-- Every timestamp parses, and the `data` of a state change is a dictionary with a status that
can be looked up. -/
def Poll.Readable (p : Poll) : Prop :=
  ∀ events now, p = .read events now → ∀ e ∈ events, Vfobs.Readable fromisoformat e

/-- The read succeeded, with a terminal history. -/
def Poll.Ended (p : Poll) : Prop :=
  ∃ events now, p = .read events now ∧ ∃ e ∈ events, IsTerminal e

/-- A history that the service serves is readable. -/
theorem Poll.readable_views (events : List StoredEvent) (now : ℤ) :
    (Poll.read (events.map StoredEvent.view) now).Readable Datetime.ofIsoText := by
  rintro _ _ ⟨⟩ v hv
  obtain ⟨se, -, rfl⟩ := List.mem_map.mp hv
  exact readable_view se

variable (rules : List AnomalyRule) (taskTimeoutS : ℚ)

/-- `_watch_once`; `none` is an exception of `from_events`. -/
def watchOnce : Poll → Option Verdict
  | .unavailable message => some ⟨.ok, "watch unavailable this tick: " ++ message⟩
  | .read events now =>
    (WatchState.fromEvents fromisoformat events now taskTimeoutS).map fun state =>
      evaluate state rules

/-- The verdict of a poll is an alert. -/
def Poll.Alarming (p : Poll) : Prop :=
  ∃ v, watchOnce fromisoformat rules taskTimeoutS p = some v ∧ v.isAlert

/-- Neither an alert nor the end of the history. -/
def Poll.GoesOn (p : Poll) : Prop := ¬ p.Alarming fromisoformat rules taskTimeoutS ∧ ¬ p.Ended

namespace Watch

/-- A turn of the loop of `main`; `none` goes on to the next one. -/
def turn (once : Bool) (p : Poll) : Option Exit :=
  match watchOnce fromisoformat rules taskTimeoutS p with
  | none => some .raised
  | some v =>
    if v.isAlert then some (.code 2)
    else if v.reason = "terminal" ∨ once then some (.code 0)
    else none

/-- `main` over the polls so far; `none` while it goes on. -/
def main (once : Bool) : List Poll → Option Exit
  | [] => none
  | p :: ps =>
    match turn fromisoformat rules taskTimeoutS once p with
    | some exit => some exit
    | none => main once ps

variable {fromisoformat rules taskTimeoutS}

theorem main_eq_findSome? (once : Bool) (ps : List Poll) :
    main fromisoformat rules taskTimeoutS once ps =
      ps.findSome? (turn fromisoformat rules taskTimeoutS once) := by
  induction ps with
  | nil => rfl
  | cons p ps ih =>
    rw [main, List.findSome?_cons, ih]
    cases turn fromisoformat rules taskTimeoutS once p <;> rfl

variable {stallS crashS fraction : ℚ} {s : WatchState}

/-- The reason of a verdict that is no alert. -/
theorem reason_evaluate
    (h : (evaluate s (defaultRules stallS crashS fraction)).isAlert = false) :
    (evaluate s (defaultRules stallS crashS fraction)).reason =
      if s.terminal then "terminal" else "progressing" := by
  have hok : (evaluate s (defaultRules stallS crashS fraction)).level = .ok := by
    simpa [Verdict.isAlert] using h
  obtain ⟨hcrashed, hstall, happroaching⟩ := level_evaluate_ok_iff.mp hok
  simp only [evaluate, defaultRules, List.findSome?_cons, List.findSome?_nil, hcrashed, hstall,
    happroaching]

/-- The reason of a read that failed is never the one that `main` looks for. -/
theorem unavailable_ne_terminal (message : String) :
    "watch unavailable this tick: " ++ message ≠ "terminal" := by
  intro h
  have hhead := congrArg (fun s : String => s.toList.head?) h
  simp at hhead

variable {events : List StoredEventView} {now : ℤ}

theorem turn_unavailable (message : String) :
    turn fromisoformat rules taskTimeoutS false (.unavailable message) = none := by
  simp [turn, watchOnce, Verdict.isAlert, unavailable_ne_terminal]

/-- A turn of the loop that has read a history. -/
theorem turn_read
    (hstate : WatchState.fromEvents fromisoformat events now taskTimeoutS = some s) :
    turn fromisoformat (defaultRules stallS crashS fraction) taskTimeoutS false
        (.read events now) =
      if (evaluate s (defaultRules stallS crashS fraction)).isAlert then some (.code 2)
      else if s.terminal then some (.code 0) else none := by
  rw [turn, watchOnce, hstate]
  cases halert : (evaluate s (defaultRules stallS crashS fraction)).isAlert with
  | true => simp [halert]
  | false => cases hterminal : s.terminal <;> simp [halert, reason_evaluate halert, hterminal]

/-- **What a turn comes to**, for a poll that can be read: an alert, the end of the history, or
neither. -/
theorem turn_cases {p : Poll} (hread : p.Readable fromisoformat)
    (stallS crashS fraction taskTimeoutS : ℚ) :
    let rules := defaultRules stallS crashS fraction
    p.Alarming fromisoformat rules taskTimeoutS ∧ ¬ p.Ended ∧
        turn fromisoformat rules taskTimeoutS false p = some (.code 2) ∨
      ¬ p.Alarming fromisoformat rules taskTimeoutS ∧ p.Ended ∧
        turn fromisoformat rules taskTimeoutS false p = some (.code 0) ∨
      ¬ p.Alarming fromisoformat rules taskTimeoutS ∧ ¬ p.Ended ∧
        turn fromisoformat rules taskTimeoutS false p = none := by
  intro rules
  cases p with
  | unavailable message =>
    refine .inr (.inr ⟨?_, ?_, turn_unavailable message⟩)
    · rintro ⟨v, hv, halert⟩
      obtain rfl := Option.some.inj hv
      exact nomatch halert
    · rintro ⟨events, now, hp, -⟩
      exact nomatch hp
  | read events now =>
    obtain ⟨state, hstate⟩ : ∃ state,
        WatchState.fromEvents fromisoformat events now taskTimeoutS = some state :=
      ⟨_, (fromEvents_eq_some_iff fromisoformat).mpr ⟨hread events now rfl, rfl⟩⟩
    have halarming : (Poll.read events now).Alarming fromisoformat rules taskTimeoutS ↔
        (evaluate state rules).isAlert := by simp [Poll.Alarming, watchOnce, hstate]
    have hended : (Poll.read events now).Ended ↔ state.terminal = true := by
      obtain ⟨-, rfl⟩ := (fromEvents_eq_some_iff fromisoformat).mp hstate
      simp [Poll.Ended, WatchState.ofEvents]
    rw [halarming, hended, turn_read hstate]
    cases hterminal : state.terminal with
    | true =>
      -- no rule raises anything of a terminal history
      have hok : (evaluate state (defaultRules stallS crashS fraction)).level = .ok :=
        level_evaluate_of_terminal hterminal
      have hquiet : (evaluate state (defaultRules stallS crashS fraction)).isAlert = false := by
        simp [Verdict.isAlert, hok]
      simp [rules, hquiet]
    | false => cases (evaluate state rules).isAlert <;> simp

/-- **The exit code over whole runs.** For every sequence of polls, each with a failed read or
with a history that can be read, and all thresholds: `main` has left with `2` if and only if some
poll alerts and all before it go on; it has left with `0` if and only if some poll has a terminal
history and all before it go on; and it polls on if and only if all do. A terminal history raises
no alert. -/
theorem watch_exit_code {ps : List Poll} (hread : ∀ p ∈ ps, p.Readable fromisoformat)
    (stallS crashS fraction taskTimeoutS : ℚ) :
    let rules := defaultRules stallS crashS fraction
    (main fromisoformat rules taskTimeoutS false ps = some (.code 2) ↔
      ∃ pre p post, ps = pre ++ p :: post ∧ p.Alarming fromisoformat rules taskTimeoutS ∧
        ∀ q ∈ pre, q.GoesOn fromisoformat rules taskTimeoutS) ∧
    (main fromisoformat rules taskTimeoutS false ps = some (.code 0) ↔
      ∃ pre p post, ps = pre ++ p :: post ∧ p.Ended ∧
        ∀ q ∈ pre, q.GoesOn fromisoformat rules taskTimeoutS) ∧
    (main fromisoformat rules taskTimeoutS false ps = none ↔
      ∀ p ∈ ps, p.GoesOn fromisoformat rules taskTimeoutS) ∧
    ∀ p ∈ ps, p.Ended → ¬ p.Alarming fromisoformat rules taskTimeoutS := by
  intro rules
  -- the three ways a turn ends, each with the condition for it
  have hturn : ∀ p ∈ ps,
      (turn fromisoformat rules taskTimeoutS false p = some (.code 2) ↔
        p.Alarming fromisoformat rules taskTimeoutS) ∧
      (turn fromisoformat rules taskTimeoutS false p = some (.code 0) ↔ p.Ended) ∧
      (turn fromisoformat rules taskTimeoutS false p = none ↔
        p.GoesOn fromisoformat rules taskTimeoutS) ∧
      (p.Ended → ¬ p.Alarming fromisoformat rules taskTimeoutS) := by
    intro p hp
    obtain ⟨halarm, hended, hexit⟩ | ⟨halarm, hended, hexit⟩ | ⟨halarm, hended, hexit⟩ :=
      turn_cases (hread p hp) stallS crashS fraction taskTimeoutS
    all_goals simp [rules, hexit, halarm, hended, Poll.GoesOn]
  -- a run that leaves does so at one of its polls, which splits it
  have hleaves : ∀ {exit : Exit} {Leaves : Poll → Prop},
      (∀ p ∈ ps, turn fromisoformat rules taskTimeoutS false p = some exit ↔ Leaves p) →
        (main fromisoformat rules taskTimeoutS false ps = some exit ↔
          ∃ pre p post, ps = pre ++ p :: post ∧ Leaves p ∧
            ∀ q ∈ pre, q.GoesOn fromisoformat rules taskTimeoutS) := by
    intro exit Leaves hexit
    rw [main_eq_findSome?, List.findSome?_eq_some_iff]
    refine exists_congr fun pre => exists_congr fun p => exists_congr fun post => ?_
    refine and_congr_right fun hps => and_congr (hexit p (by simp [hps])) ?_
    exact forall₂_congr fun q hq => (hturn q (by simp [hps, hq])).2.2.1
  refine ⟨hleaves fun p hp => (hturn p hp).1, hleaves fun p hp => (hturn p hp).2.1, ?_,
    fun p hp => (hturn p hp).2.2.2⟩
  rw [main_eq_findSome?, List.findSome?_eq_none_iff]
  exact forall₂_congr fun p hp => (hturn p hp).2.2.1

/-- A read that fails, and then one that shows a crash. -/
theorem watch_exit_code_crash :
    main Datetime.ofIsoText (defaultRules 60 120 (4 / 5)) 1800 false
      [.unavailable "refused", .read firstAttempt 63914443331000000] = some (.code 2) := by
  have hstate := fromEvents_firstAttempt 1800
  refine (watch_exit_code ?_ 60 120 (4 / 5) 1800).1.mpr
    ⟨[.unavailable "refused"], _, [], rfl, ⟨_, by rw [watchOnce, hstate]; rfl, ?_⟩, ?_⟩
  · simp only [List.forall_mem_cons, List.not_mem_nil, false_imp_iff, forall_true_iff, and_true]
    refine ⟨nofun, ?_⟩
    rintro events now ⟨⟩
    exact ((fromEvents_eq_some_iff _).mp hstate).1
  · exact isAlert_evaluate_iff.mpr (.inl (unheard_firstAttempt 1800))
  · simp [Poll.GoesOn, Poll.Alarming, Poll.Ended, watchOnce, Verdict.isAlert]

end Watch

end Vfobs
