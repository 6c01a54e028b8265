import Vfobs.Sdk.Watch
import Mathlib.Tactic.NormNum

/-!
# The watcher on a task of several attempts

A task may be claimed again: after a terminal status (rework), or after its executor has died
without one. `from_events` has no notion of an attempt. It keeps `terminal` once it is set,
and it lets the first claim and the latest signals of earlier attempts stand beside those of
the latest one.

`rework_watched_iff` says for which histories this tells the terminal ones from the rest.
`fresh_claim_ok_iff` says when a claim that is itself fresh raises nothing: the signals left
from before it must be fresh too.
-/

namespace Vfobs

section attempts

variable (fromisoformat : String → Option Datetime)

/-! ### Rework -/

/-- Some claim comes after the last terminal state change. -/
def Reclaimed (events : List StoredEventView) : Prop :=
  ∃ pre t post, events = pre ++ t :: post ∧ IsTerminal t ∧ (∀ e ∈ post, ¬ IsTerminal e) ∧
    ∃ c ∈ post, IsClaim c

/-- The last state change is terminal, and no claim follows it. -/
def EndsTerminal (events : List StoredEventView) : Prop :=
  ∃ pre t post, events = pre ++ t :: post ∧ IsTerminal t ∧
    ∀ e ∈ post, e.type ≠ "task.state_changed" ∧ ¬ IsClaim e

/-- `from_events` takes a task that has been claimed again for running, and one that has
ended for terminal. -/
def ReworkWatched (events : List StoredEventView) : Prop :=
  ∀ now taskTimeoutS,
    (Reclaimed events → ∃ state,
      WatchState.fromEvents fromisoformat events now taskTimeoutS = some state ∧
        state.terminal = false) ∧
    (EndsTerminal events → ∃ state,
      WatchState.fromEvents fromisoformat events now taskTimeoutS = some state ∧
        state.terminal = true)

variable {fromisoformat} {events : List StoredEventView}

/-- Terminal is for good. -/
theorem terminal_of_fromEvents {t : StoredEventView} (ht : t ∈ events) (hterminal : IsTerminal t)
    {now : ℤ} {taskTimeoutS : ℚ} {state : WatchState}
    (h : WatchState.fromEvents fromisoformat events now taskTimeoutS = some state) :
    state.terminal = true := by
  obtain ⟨-, rfl⟩ := (fromEvents_eq_some_iff fromisoformat).mp h
  exact List.any_eq_true.mpr ⟨t, ht, decide_eq_true hterminal⟩

/-- **Which histories are told apart.** A task that was claimed again after a terminal status
never is. -/
theorem rework_watched_iff :
    ReworkWatched fromisoformat events ↔
      ¬ Reclaimed events ∧
        (EndsTerminal events → ∀ e ∈ events, Readable fromisoformat e) := by
  constructor
  · intro h
    refine ⟨fun hre => ?_, fun hend => ?_⟩
    · obtain ⟨state, hstate, hfalse⟩ := (h 0 0).1 hre
      obtain ⟨pre, t, post, rfl, hterminal, -, -⟩ := hre
      have htrue := terminal_of_fromEvents (by simp) hterminal hstate
      exact Bool.false_ne_true (hfalse.symm.trans htrue)
    · obtain ⟨state, hstate, -⟩ := (h 0 0).2 hend
      exact ((fromEvents_eq_some_iff fromisoformat).mp hstate).1
  · rintro ⟨hnot, hread⟩ now taskTimeoutS
    refine ⟨fun hre => absurd hre hnot, fun hend => ?_⟩
    have hstate : WatchState.fromEvents fromisoformat events now taskTimeoutS = some _ :=
      (fromEvents_eq_some_iff fromisoformat).mpr ⟨hread hend, rfl⟩
    obtain ⟨pre, t, post, rfl, hterminal, -⟩ := hend
    exact ⟨_, hstate, terminal_of_fromEvents (by simp) hterminal hstate⟩

end attempts

/-- The view of an event with nothing in its `data` but a status. -/
def sampleView (id : ℤ) (type timestamp toStatus : String) : StoredEventView where
  id
  type
  timestamp
  data := .obj [("to_status", .str toStatus)]

/-- A task that is done, and claimed again a minute later. -/
def reworked : List StoredEventView :=
  [sampleView 1 "task.state_changed" "2026-05-14T12:00:00Z" "done",
    sampleView 2 "task.claimed" "2026-05-14T12:01:00Z" ""]

theorem reworked_not_watched : ¬ ReworkWatched Datetime.ofIsoText reworked := by
  intro h
  have hre : Reclaimed reworked := by
    refine ⟨[], _, _, rfl, ⟨rfl, by decide⟩, ?_, _, List.mem_singleton_self _, rfl⟩
    simp [sampleView, IsTerminal]
  have hrun : ∃ state, WatchState.fromEvents Datetime.ofIsoText reworked 0 0 = some state ∧
      state.terminal = true := ⟨_, rfl, rfl⟩
  obtain ⟨state, hstate, htrue⟩ := hrun
  obtain ⟨state', hstate', hfalse⟩ := (h 0 0).1 hre
  rw [hstate, Option.some.injEq] at hstate'
  exact Bool.false_ne_true (hfalse.symm.trans (hstate' ▸ htrue))

/-! ### A fresh claim -/

/-- The maximum of two lists in order is that of the second, unless it is empty. -/
theorem max?_append_of_le {l m : List ℤ} (h : ∀ a ∈ l, ∀ b ∈ m, a ≤ b) :
    (l ++ m).max? = (m.max? <|> l.max?) := by
  induction m using List.reverseRecOn with
  | nil => simp
  | append_singleton m b ih =>
    have hm : ∀ a ∈ l, ∀ b ∈ m, a ≤ b := fun a ha b hb => h a ha b (List.mem_append_left _ hb)
    rw [← List.append_assoc, max?_concat, ih hm, max?_concat]
    cases hmax : m.max? with
    | some t =>
      simp only [Option.orElse_eq_orElse, Option.orElse_some, later]
      split_ifs <;> rfl
    | none =>
      cases hl : l.max? with
      | none => rfl
      | some t =>
        have htb : t ≤ b := h t (List.max?_mem hl) b (by simp)
        simp only [Option.orElse_eq_orElse, Option.orElse_none, Option.orElse_some, later]
        split_ifs with hlt
        · rfl
        · rw [le_antisymm htb (not_lt.mp hlt)]

/-- A condition on a signal that falls back on an older one, where the newer meets it. -/
theorem forall_mem_orElse {P : ℤ → Prop} {a b : Option ℤ} (h : ∀ t ∈ a, P t) :
    (∀ t ∈ (a <|> b), P t) ↔ (a = none → ∀ t ∈ b, P t) := by
  cases a with
  | none => simp
  | some t => simpa using h t rfl

theorem forall_mem_orElse_some {P : ℤ → Prop} {a : Option ℤ} {t : ℤ} (h : P t) :
    (∀ x ∈ (a <|> some t), P x) ↔ ∀ x ∈ a, P x := by
  cases a with
  | none => simp [h]
  | some t => rfl

section claim

variable {fromisoformat : String → Option Datetime}

theorem timesOf_append (type : String) (pre post : List StoredEventView) :
    timesOf fromisoformat type (pre ++ post) =
      timesOf fromisoformat type pre ++ timesOf fromisoformat type post :=
  List.filterMap_append

theorem mem_timesOf {type : String} {events : List StoredEventView} {t : ℤ} :
    t ∈ timesOf fromisoformat type events ↔
      ∃ e ∈ events, e.type = type ∧ parseTs fromisoformat e.timestamp = some t := by
  simp only [timesOf, List.mem_filterMap, Option.ite_none_right_eq_some]

theorem timesOf_cons_of_ne {type : String} {c : StoredEventView} (h : c.type ≠ type)
    (post : List StoredEventView) :
    timesOf fromisoformat type (c :: post) = timesOf fromisoformat type post := by
  simp only [timesOf, List.filterMap_cons, if_neg h]

/-- The timestamps of a list of views do not decrease. -/
def InTimeOrder (fromisoformat : String → Option Datetime) (events : List StoredEventView) :
    Prop :=
  events.Pairwise fun e e' => ∀ t ∈ parseTs fromisoformat e.timestamp,
    ∀ t' ∈ parseTs fromisoformat e'.timestamp, t ≤ t'

variable (fromisoformat) in
/-- The default rules find nothing to raise in a list of views. -/
def RaisesNothing (events : List StoredEventView) (now : ℤ)
    (stallS crashS fraction taskTimeoutS : ℚ) : Prop :=
  ∃ state, WatchState.fromEvents fromisoformat events now taskTimeoutS = some state ∧
    (evaluate state (defaultRules stallS crashS fraction)).level = .ok

variable (fromisoformat) in
/-- What is left of the signals before the last claim is fresh, where nothing after the claim
supersedes it. -/
structure PreviousFresh (pre post : List StoredEventView) (now : ℤ)
    (stallS crashS fraction taskTimeoutS : ℚ) : Prop where
  heartbeat : latestAt fromisoformat "task.heartbeat" post = none →
    ∀ t ∈ latestAt fromisoformat "task.heartbeat" pre, age now t ≤ crashS
  progress : (latestAt fromisoformat "task.heartbeat" (pre ++ post)).isSome →
    latestAt fromisoformat "task.workdir_changed" post = none →
    ∀ t ∈ (latestAt fromisoformat "task.workdir_changed" pre <|>
      firstAt fromisoformat "task.claimed" pre), age now t ≤ stallS
  claim : ∀ t ∈ firstAt fromisoformat "task.claimed" pre, age now t ≤ fraction * taskTimeoutS

variable {pre post : List StoredEventView} {c : StoredEventView} {now claimedAt : ℤ}

theorem age_le_age {t t' : ℤ} (h : t ≤ t') : age now t' ≤ age now t := by
  rw [age, age]
  have : ((now - t' : ℤ) : ℚ) ≤ ((now - t : ℤ) : ℚ) := Int.cast_le.mpr (by omega)
  linarith

/-- The signals after the claim are as fresh as the claim. -/
theorem age_latestAt_post (horder : InTimeOrder fromisoformat (pre ++ c :: post))
    (hts : parseTs fromisoformat c.timestamp = some claimedAt) {type : String} {t : ℤ}
    (ht : t ∈ latestAt fromisoformat type post) : age now t ≤ age now claimedAt := by
  obtain ⟨e, he, -, het⟩ := mem_timesOf.mp (List.max?_mem ht)
  have hafter := (List.pairwise_cons.mp (List.pairwise_append.mp horder).2.1).1 e he
  exact age_le_age (hafter claimedAt hts t het)

/-- The latest signal of a list is the latest after the claim, unless there is none. -/
theorem latestAt_claim (horder : InTimeOrder fromisoformat (pre ++ c :: post))
    {type : String} (htype : c.type ≠ type) :
    latestAt fromisoformat type (pre ++ c :: post) =
      (latestAt fromisoformat type post <|> latestAt fromisoformat type pre) := by
  rw [latestAt, timesOf_append, timesOf_cons_of_ne htype]
  refine max?_append_of_le fun t ht t' ht' => ?_
  obtain ⟨e, he, -, het⟩ := mem_timesOf.mp ht
  obtain ⟨e', he', -, het'⟩ := mem_timesOf.mp ht'
  exact (List.pairwise_append.mp horder).2.2 e he e' (List.mem_cons_of_mem _ he') t het t' het'

/-- The claim that a list starts from is the first before the last, or the last. -/
theorem firstAt_claim (hclaim : IsClaim c)
    (hts : parseTs fromisoformat c.timestamp = some claimedAt) :
    firstAt fromisoformat "task.claimed" (pre ++ c :: post) =
      (firstAt fromisoformat "task.claimed" pre <|> some claimedAt) := by
  have hone : timesOf fromisoformat "task.claimed" (c :: post) =
      claimedAt :: timesOf fromisoformat "task.claimed" post := by
    have htype : c.type = "task.claimed" := hclaim
    simp only [timesOf, List.filterMap_cons, if_pos htype, hts]
  rw [firstAt, timesOf_append, hone]
  cases h : timesOf fromisoformat "task.claimed" pre <;> simp [firstAt, h]

/-- **When a fresh claim raises nothing**, for any claim of a list and so for the last one: the
history is readable, and terminal, or else what is left from before the claim is fresh as
well. -/
theorem fresh_claim_ok_iff {stallS crashS fraction taskTimeoutS : ℚ} (hclaim : IsClaim c)
    (hts : parseTs fromisoformat c.timestamp = some claimedAt)
    (horder : InTimeOrder fromisoformat (pre ++ c :: post)) (htimeout : 0 < taskTimeoutS)
    (hstall : age now claimedAt ≤ stallS) (hcrash : age now claimedAt ≤ crashS)
    (hfraction : age now claimedAt ≤ fraction * taskTimeoutS) :
    RaisesNothing fromisoformat (pre ++ c :: post) now stallS crashS fraction taskTimeoutS ↔
      (∀ e ∈ pre ++ c :: post, Readable fromisoformat e) ∧
        ((∃ e ∈ pre ++ c :: post, IsTerminal e) ∨
          PreviousFresh fromisoformat pre post now stallS crashS fraction taskTimeoutS) := by
  simp only [RaisesNothing, fromEvents_eq_some_iff, and_assoc, exists_and_left, exists_eq_left]
  rw [level_evaluate_ok_iff_fresh htimeout]
  refine and_congr_right fun _ => or_congr ?_ ?_
  · simp only [WatchState.ofEvents, List.any_eq_true, decide_eq_true_eq]
  have htype : c.type = "task.claimed" := hclaim
  have hhb : c.type ≠ "task.heartbeat" := by
    rw [htype]
    decide
  have hwork : c.type ≠ "task.workdir_changed" := by
    rw [htype]
    decide
  -- the state in terms of the events before and after the claim
  have hbeat : latestAt fromisoformat "task.heartbeat" (pre ++ post) =
      latestAt fromisoformat "task.heartbeat" (pre ++ c :: post) := by
    rw [latestAt, latestAt, timesOf_append, timesOf_append, timesOf_cons_of_ne hhb]
  have hprogress : (WatchState.ofEvents fromisoformat (pre ++ c :: post) now
      taskTimeoutS).progressedAt =
        (latestAt fromisoformat "task.workdir_changed" post <|>
          ((latestAt fromisoformat "task.workdir_changed" pre <|>
            firstAt fromisoformat "task.claimed" pre) <|> some claimedAt)) := by
    simp only [WatchState.progressedAt, WatchState.ofEvents, latestAt_claim horder hwork,
      firstAt_claim hclaim hts]
    cases latestAt fromisoformat "task.workdir_changed" post <;>
      cases latestAt fromisoformat "task.workdir_changed" pre <;> rfl
  rw [hprogress]
  simp only [WatchState.ofEvents, ← hbeat]
  rw [hbeat, latestAt_claim horder hhb, firstAt_claim hclaim hts,
    forall_mem_orElse fun t ht => (age_latestAt_post horder hts ht).trans hcrash,
    forall_mem_orElse fun t ht => (age_latestAt_post horder hts ht).trans hstall,
    forall_mem_orElse_some (P := (age now · ≤ stallS)) hstall,
    forall_mem_orElse_some (P := (age now · ≤ fraction * taskTimeoutS)) hfraction,
    ← latestAt_claim horder hhb, ← hbeat]
  exact ⟨fun h => ⟨h.1, h.2.1, h.2.2⟩, fun h => ⟨h.heartbeat, h.progress, h.claim⟩⟩

end claim

/-- The first attempt at a task: a claim, and a heartbeat ten seconds later. -/
def firstAttempt : List StoredEventView :=
  [sampleView 1 "task.claimed" "2026-05-14T12:00:00Z" "",
    sampleView 2 "task.heartbeat" "2026-05-14T12:00:10Z" ""]

/-- Another claim, ten minutes after the first. -/
def secondClaim : StoredEventView := sampleView 3 "task.claimed" "2026-05-14T12:10:00Z" ""

theorem parseTs_secondClaim :
    parseTs Datetime.ofIsoText secondClaim.timestamp = some 63914443800000000 := by rfl

theorem inTimeOrder_secondClaim :
    InTimeOrder Datetime.ofIsoText (firstAttempt ++ [secondClaim]) := by
  have hclaim : parseTs Datetime.ofIsoText "2026-05-14T12:00:00Z" = some 63914443200000000 := by
    rfl
  have hbeat : parseTs Datetime.ofIsoText "2026-05-14T12:00:10Z" = some 63914443210000000 := by
    rfl
  simp [InTimeOrder, firstAttempt, sampleView, hclaim, hbeat, parseTs_secondClaim]

theorem fresh_claim_ok_iff_second :
    RaisesNothing Datetime.ofIsoText (firstAttempt ++ [secondClaim]) 63914443801000000 60 120
        (4 / 5) 3600 ↔
      (∀ e ∈ firstAttempt ++ [secondClaim], Readable Datetime.ofIsoText e) ∧
        ((∃ e ∈ firstAttempt ++ [secondClaim], IsTerminal e) ∨
          PreviousFresh Datetime.ofIsoText firstAttempt [] 63914443801000000 60 120 (4 / 5)
            3600) :=
  fresh_claim_ok_iff rfl parseTs_secondClaim inTimeOrder_secondClaim
    (by norm_num) (by norm_num [age]) (by norm_num [age]) (by norm_num [age])

/-- A second after the second claim, the watcher still calls the task crashed. -/
theorem second_claim_alarmed :
    IsClaim secondClaim ∧
      parseTs Datetime.ofIsoText secondClaim.timestamp = some 63914443800000000 ∧
      InTimeOrder Datetime.ofIsoText (firstAttempt ++ [secondClaim]) ∧
      age 63914443801000000 63914443800000000 = 1 ∧
      ¬ RaisesNothing Datetime.ofIsoText (firstAttempt ++ [secondClaim]) 63914443801000000 60 120
        (4 / 5) 3600 := by
  refine ⟨rfl, parseTs_secondClaim, inTimeOrder_secondClaim, by norm_num [age], ?_⟩
  rintro ⟨state, hstate, hok⟩
  have hrun : ∃ state, WatchState.fromEvents Datetime.ofIsoText (firstAttempt ++ [secondClaim])
      63914443801000000 3600 = some state ∧ state.terminal = false ∧
        state.now = 63914443801000000 ∧ state.lastHeartbeatAt = some 63914443210000000 :=
    ⟨_, rfl, rfl, rfl, rfl⟩
  obtain ⟨state', hstate', hterminal, hnow, hbeat⟩ := hrun
  rw [hstate, Option.some.injEq] at hstate'
  subst hstate'
  have hcrashed := (level_evaluate_ok_iff.mp hok).1
  rw [crashed_eq_none_iff, hterminal, hnow, hbeat] at hcrashed
  norm_num [age] at hcrashed

end Vfobs
