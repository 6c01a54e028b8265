import Vfobs.Sdk.WatchAttempts
import Mathlib.Order.Basic
import Mathlib.Tactic.Linarith

/-!
# What raises an alert, and for how long

The verdict of the default rules is the first of three conditions that holds of a state:
`Unheard`, `Idle` and `Late` (`level_evaluate`). That `Stall` leaves old heartbeats to `Crashed`
makes no gap, since both have the same threshold.

* `alerts_escalate`: time passing without new events never weakens a verdict.
* `silent_run_alert_iff`: a run that has been claimed and is silent beyond both thresholds raises
  an alert if and only if a heartbeat has come before, or the claim is near the timeout. The
  rules of a stuck run ask for a heartbeat, so a run whose executor dies before its first one is
  reported as progressing (`claimed_and_gone`).
-/

namespace Vfobs

/-! ### The verdict as the first condition that holds -/

/-- The place of a level in the order of escalation. -/
def Level.rank : Level → ℕ
  | ok => 0
  | approachingTimeout => 1
  | stalled => 2
  | crashed => 3

theorem Level.rank_injective : Function.Injective Level.rank := by
  intro a b h
  cases a <;> cases b <;> first | rfl | exact nomatch h

/-- `OK < APPROACHING_TIMEOUT < STALLED < CRASHED`. -/
instance : PartialOrder Level := PartialOrder.lift Level.rank Level.rank_injective

theorem Level.le_crashed (l : Level) : l ≤ Level.crashed := by
  cases l <;> decide

variable (stallS crashS fraction : ℚ) (s : WatchState)

/-- The last heartbeat is older than `crash_s`. -/
def Unheard : Prop := s.terminal = false ∧ ∃ hb ∈ s.lastHeartbeatAt, crashS < age s.now hb

/-- There are heartbeats, and the last progress is older than `stall_s`. -/
def Idle : Prop :=
  s.terminal = false ∧ s.lastHeartbeatAt.isSome ∧ ∃ t ∈ s.progressedAt, stallS < age s.now t

/-- The claim is older than its fraction of the timeout. -/
def Late : Prop :=
  s.terminal = false ∧ 0 < s.taskTimeoutS ∧
    ∃ t ∈ s.claimedAt, fraction * s.taskTimeoutS < age s.now t

instance : Decidable (Unheard crashS s) := inferInstanceAs (Decidable (_ ∧ _))

instance : Decidable (Idle stallS s) := inferInstanceAs (Decidable (_ ∧ _))

instance : Decidable (Late fraction s) := inferInstanceAs (Decidable (_ ∧ _))

variable {stallS crashS fraction s}

theorem crashed_ne_none_iff : crashed crashS s ≠ none ↔ Unheard crashS s := by
  rw [ne_eq, crashed_eq_none_iff, Unheard]
  push Not
  rw [ne_eq, Bool.not_eq_true]

/-- `Stall` raises what `Crashed` does not. -/
theorem stall_ne_none_iff (h : ¬ Unheard crashS s) :
    stall stallS crashS s ≠ none ↔ Idle stallS s := by
  rw [ne_eq, stall_eq_none_iff, Idle]
  push Not
  rw [ne_eq, Bool.not_eq_true]
  refine and_congr_right fun hrunning => ?_
  constructor
  · rintro ⟨hb, hhb, -, hidle⟩
    exact ⟨Option.isSome_of_mem hhb, hidle⟩
  · rintro ⟨hsome, hidle⟩
    obtain ⟨hb, hhb⟩ := Option.isSome_iff_exists.mp hsome
    exact ⟨hb, hhb, not_lt.mp fun hold => h ⟨hrunning, hb, hhb, hold⟩, hidle⟩

theorem approachingTimeout_ne_none_iff :
    approachingTimeout fraction s ≠ none ↔ Late fraction s := by
  rw [ne_eq, approachingTimeout_eq_none_iff, Late]
  push Not
  rw [ne_eq, Bool.not_eq_true]

/-- **The verdict** is the first condition that holds, in the order of the rules. -/
theorem level_evaluate :
    (evaluate s (defaultRules stallS crashS fraction)).level =
      if Unheard crashS s then .crashed else if Idle stallS s then .stalled
      else if Late fraction s then .approachingTimeout else .ok := by
  simp only [evaluate, defaultRules, List.findSome?_cons, List.findSome?_nil]
  by_cases hcrash : Unheard crashS s
  · obtain ⟨v, hv⟩ := Option.ne_none_iff_exists'.mp (crashed_ne_none_iff.mpr hcrash)
    rw [hv, if_pos hcrash]
    exact level_of_crashed hv
  rw [not_not.mp (crashed_ne_none_iff.not.mpr hcrash), if_neg hcrash]
  by_cases hstall : Idle stallS s
  · obtain ⟨v, hv⟩ := Option.ne_none_iff_exists'.mp ((stall_ne_none_iff hcrash).mpr hstall)
    rw [hv, if_pos hstall]
    exact level_of_stall hv
  rw [not_not.mp ((stall_ne_none_iff hcrash).not.mpr hstall), if_neg hstall]
  by_cases hlate : Late fraction s
  · obtain ⟨v, hv⟩ := Option.ne_none_iff_exists'.mp (approachingTimeout_ne_none_iff.mpr hlate)
    rw [hv, if_pos hlate]
    exact level_of_approachingTimeout hv
  · rw [not_not.mp (approachingTimeout_ne_none_iff.not.mpr hlate), if_neg hlate]

/-- When there is an alert at all. -/
theorem isAlert_evaluate_iff :
    (evaluate s (defaultRules stallS crashS fraction)).isAlert ↔
      Unheard crashS s ∨ Idle stallS s ∨ Late fraction s := by
  rw [Verdict.isAlert, decide_eq_true_eq, level_evaluate]
  split_ifs with hcrash hstall hlate <;> simp [*]

/-! ### Escalation -/

section escalation

variable {now now' : ℤ}

theorem age_mono (h : now ≤ now') (t : ℤ) : age now t ≤ age now' t := by
  rw [age, age]
  have hcast : ((now - t : ℤ) : ℚ) ≤ ((now' - t : ℤ) : ℚ) := Int.cast_le.mpr (by omega)
  linarith

/-- A threshold that is passed stays passed. -/
theorem exists_old_mono (h : now ≤ now') {signal : Option ℤ} {bound : ℚ}
    (hold : ∃ t ∈ signal, bound < age now t) : ∃ t ∈ signal, bound < age now' t := by
  obtain ⟨t, ht, hlt⟩ := hold
  exact ⟨t, ht, hlt.trans_le (age_mono h t)⟩

/-- Each condition, once it holds, holds from then on. -/
theorem Unheard.later (hs : Unheard crashS s) (h : s.now ≤ now') :
    Unheard crashS { s with now := now' } :=
  ⟨hs.1, exists_old_mono h hs.2⟩

theorem Idle.later (hs : Idle stallS s) (h : s.now ≤ now') : Idle stallS { s with now := now' } :=
  ⟨hs.1, hs.2.1, exists_old_mono h hs.2.2⟩

theorem Late.later (hs : Late fraction s) (h : s.now ≤ now') :
    Late fraction { s with now := now' } :=
  ⟨hs.1, hs.2.1, exists_old_mono h hs.2.2⟩

/-- **The verdict on a state escalates** as the clock goes on. -/
theorem level_evaluate_le_later (h : s.now ≤ now') :
    (evaluate s (defaultRules stallS crashS fraction)).level ≤
      (evaluate { s with now := now' } (defaultRules stallS crashS fraction)).level := by
  rw [level_evaluate, level_evaluate]
  by_cases hcrash : Unheard crashS { s with now := now' }
  · rw [if_pos hcrash]
    exact Level.le_crashed _
  rw [if_neg hcrash, if_neg fun hs => hcrash (hs.later h)]
  by_cases hstall : Idle stallS { s with now := now' }
  · rw [if_pos hstall]
    split_ifs <;> decide
  rw [if_neg hstall, if_neg fun hs => hstall (hs.later h)]
  by_cases hlate : Late fraction { s with now := now' }
  · rw [if_pos hlate]
    split_ifs <;> decide
  · rw [if_neg hlate, if_neg fun hs => hlate (hs.later h)]

/-- Nothing is raised of a terminal history. -/
theorem level_evaluate_of_terminal (h : s.terminal = true) :
    (evaluate s (defaultRules stallS crashS fraction)).level = .ok := by
  rw [level_evaluate, if_neg, if_neg, if_neg]
  · exact fun hs => Bool.false_ne_true (hs.1.symm.trans h)
  · exact fun hs => Bool.false_ne_true (hs.1.symm.trans h)
  · exact fun hs => Bool.false_ne_true (hs.1.symm.trans h)

/-- **Alerts only escalate with time.** For every list of events and all thresholds: where the
watcher reaches a verdict at one time, it reaches one at every later time, which is at least as
grave; and once the history is terminal the verdict is `OK`. -/
theorem alerts_escalate (fromisoformat : String → Option Datetime) (events : List StoredEventView)
    (stallS crashS fraction taskTimeoutS : ℚ) (h : now ≤ now') {state : WatchState}
    (hstate : WatchState.fromEvents fromisoformat events now taskTimeoutS = some state) :
    ∃ state', WatchState.fromEvents fromisoformat events now' taskTimeoutS = some state' ∧
      (evaluate state (defaultRules stallS crashS fraction)).level ≤
        (evaluate state' (defaultRules stallS crashS fraction)).level ∧
      (state.terminal = true →
        (evaluate state' (defaultRules stallS crashS fraction)).level = .ok) := by
  obtain ⟨hread, rfl⟩ := (fromEvents_eq_some_iff fromisoformat).mp hstate
  refine ⟨_, (fromEvents_eq_some_iff fromisoformat).mpr ⟨hread, rfl⟩, ?_, fun hterminal => ?_⟩
  · exact level_evaluate_le_later (s := .ofEvents fromisoformat events now taskTimeoutS) h
  · exact level_evaluate_of_terminal hterminal

/-- The first attempt of a task, two minutes and a second after its heartbeat. -/
theorem fromEvents_firstAttempt (taskTimeoutS : ℚ) :
    WatchState.fromEvents Datetime.ofIsoText firstAttempt 63914443331000000 taskTimeoutS =
      some ⟨63914443331000000, some 63914443200000000, some 63914443210000000, none, false,
        taskTimeoutS⟩ := rfl

theorem unheard_firstAttempt (taskTimeoutS : ℚ) :
    Unheard 120 ⟨63914443331000000, some 63914443200000000, some 63914443210000000, none, false,
      taskTimeoutS⟩ :=
  ⟨rfl, _, rfl, by norm_num [age]⟩

/-- It is crashed then, and an hour later. -/
theorem alerts_escalate_firstAttempt :
    ∃ state', WatchState.fromEvents Datetime.ofIsoText firstAttempt 63914446931000000 3600 =
        some state' ∧ (evaluate state' (defaultRules 60 120 (4 / 5))).level = .crashed := by
  have hlater : (63914443331000000 : ℤ) ≤ 63914446931000000 := by decide
  obtain ⟨state', hstate', hle, -⟩ := alerts_escalate Datetime.ofIsoText firstAttempt 60 120
    (4 / 5) 3600 hlater (fromEvents_firstAttempt 3600)
  refine ⟨state', hstate', le_antisymm (Level.le_crashed _) ?_⟩
  rwa [level_evaluate, if_pos (unheard_firstAttempt 3600)] at hle

end escalation

/-! ### Silence -/

/-- Every signal that is present, the claim among them, is older than `bound`. -/
def AllOlder (s : WatchState) (bound : ℚ) : Prop :=
  ∀ signal ∈ [s.claimedAt, s.lastHeartbeatAt, s.lastWorkdirChangeAt], ∀ t ∈ signal,
    bound < age s.now t

theorem allOlder_iff {bound : ℚ} :
    AllOlder s bound ↔ (∀ t ∈ s.claimedAt, bound < age s.now t) ∧
      (∀ t ∈ s.lastHeartbeatAt, bound < age s.now t) ∧
        ∀ t ∈ s.lastWorkdirChangeAt, bound < age s.now t := by
  simp [AllOlder]

/-- **When a silent run raises an alert.** For every state that is claimed and not terminal, and
whose signals are all older than both thresholds: it does if and only if a heartbeat has ever
come, or the claim is older than its fraction of the timeout. -/
theorem silent_run_alert_iff {claimed : ℤ} (hclaimed : s.claimedAt = some claimed)
    (hrunning : s.terminal = false) (hsilent : AllOlder s (max stallS crashS)) :
    (evaluate s (defaultRules stallS crashS fraction)).isAlert ↔
      s.lastHeartbeatAt.isSome ∨
        0 < s.taskTimeoutS ∧ fraction * s.taskTimeoutS < age s.now claimed := by
  have hlate : Late fraction s ↔
      0 < s.taskTimeoutS ∧ fraction * s.taskTimeoutS < age s.now claimed := by
    simp [Late, hrunning, hclaimed]
  rw [isAlert_evaluate_iff, hlate, ← or_assoc]
  refine or_congr_left ⟨?_, fun hsome => .inl ?_⟩
  · rintro (hcrash | hstall)
    · obtain ⟨-, hb, hhb, -⟩ := hcrash
      exact Option.isSome_of_mem hhb
    · exact hstall.2.1
  · -- a heartbeat that is older than both thresholds is older than `crash_s`
    obtain ⟨hb, hhb⟩ := Option.isSome_iff_exists.mp hsome
    exact ⟨hrunning, hb, hhb, (le_max_right _ _).trans_lt (hsilent _ (by simp) hb hhb)⟩

/-- A run with a single heartbeat, three minutes later. -/
theorem silent_run_alert_iff_heartbeat :
    (evaluate ⟨180000000, some 0, some 1000000, none, false, 1800⟩
      (defaultRules 60 120 (4 / 5))).isAlert := by
  refine (silent_run_alert_iff rfl rfl (allOlder_iff.mpr ⟨?_, ?_, ?_⟩)).mpr (.inl rfl)
  · rintro _ ⟨⟩
    norm_num [age]
  · rintro _ ⟨⟩
    norm_num [age]
  · exact fun _ h => absurd h (Option.not_mem_none _)

/-- A run whose executor is gone since it claimed the task. -/
def claimedOnly : List StoredEventView := [sampleView 1 "task.claimed" "2026-05-14T12:00:00Z" ""]

/-- Ten minutes after the claim, with the default settings, the watcher calls it progressing. -/
theorem claimed_and_gone :
    ∃ state, WatchState.fromEvents Datetime.ofIsoText claimedOnly 63914443800000000 1800 =
        some state ∧ state.claimedAt = some 63914443200000000 ∧ state.terminal = false ∧
      AllOlder state (max 60 120) ∧
      evaluate state (defaultRules 60 120 (4 / 5)) = ⟨.ok, "progressing"⟩ ∧
      ¬ (evaluate state (defaultRules 60 120 (4 / 5))).isAlert := by
  have hstate : WatchState.fromEvents Datetime.ofIsoText claimedOnly 63914443800000000 1800 =
      some ⟨63914443800000000, some 63914443200000000, none, none, false, 1800⟩ := rfl
  have hverdict : evaluate ⟨63914443800000000, some 63914443200000000, none, none, false, 1800⟩
      (defaultRules 60 120 (4 / 5)) = ⟨.ok, "progressing"⟩ := by
    norm_num [evaluate, defaultRules, List.findSome?_cons, crashed, stall, approachingTimeout, age]
  refine ⟨_, hstate, rfl, rfl, ?_, hverdict, ?_⟩
  · refine allOlder_iff.mpr ⟨?_, fun _ h => absurd h (Option.not_mem_none _),
      fun _ h => absurd h (Option.not_mem_none _)⟩
    rintro _ ⟨⟩
    norm_num [age]
  · rw [hverdict]
    decide

end Vfobs
