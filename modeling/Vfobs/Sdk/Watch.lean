import Vfobs.Sdk.ReadClient
import Mathlib.Algebra.Order.Field.Rat
import Mathlib.Data.Rat.Floor

/-!
# The watcher

`WatchState.fromEvents` folds the views of a task's events into the signals that the anomaly
rules judge, and `evaluate` asks the rules in order of priority. Points in time are
microseconds, ages exact rationals in seconds; `fromisoformat` is any parser of timestamps,
`none` being its `ValueError`.

`fromEvents_eq_some_iff` reads the fold off the list as a whole: it succeeds on readable
views only, and then `terminal` says whether any of them is a terminal state change, the
claim is the earliest in the list, and the other two signals are the latest in time.
-/

namespace Vfobs

/-! ### Reading the views -/

/-- `_TERMINAL`. -/
def terminalStatuses : List String := ["done", "failed", "cancelled", "rejected"]

/-- `s.replace("Z", "+00:00")`. -/
def replaceZ (s : String) : String :=
  String.ofList (s.toList.flatMap fun c => if c = 'Z' then "+00:00".toList else [c])

/-- `_parse_ts`, as a point in time. -/
def parseTs (fromisoformat : String → Option Datetime) (s : String) : Option ℤ :=
  (fromisoformat (replaceZ s)).map fun d => d.assumeUtc.instant

/-- `data.get("to_status") in _TERMINAL`; `none` is the exception of a `data` that is no
dictionary, or of a value that cannot be hashed. -/
def terminalHit : Json → Option Bool
  | .obj fs =>
    match fs.lookup "to_status" with
    | some (.str s) => some (decide (s ∈ terminalStatuses))
    | some (.arr _) | some (.obj _) => none
    | _ => some false
  | _ => none

/-- The local variables of `from_events`. -/
structure Signals where
  claimedAt : Option ℤ := none
  hb : Option ℤ := none
  workdirAt : Option ℤ := none
  terminal : Bool := false

/-- The later of a signal so far and a new one. -/
def later (current : Option ℤ) (ts : ℤ) : Option ℤ :=
  match current with
  | none => some ts
  | some t => if t < ts then some ts else some t

/-- `WatchState`, without what `from_events` passes through. -/
structure WatchState where
  now : ℤ
  claimedAt : Option ℤ
  lastHeartbeatAt : Option ℤ
  lastWorkdirChangeAt : Option ℤ
  terminal : Bool
  taskTimeoutS : ℚ

section fold

variable (fromisoformat : String → Option Datetime)

/-- The body of the loop of `from_events`; `none` is an exception. -/
def Signals.observe (s : Signals) (e : StoredEventView) : Option Signals := do
  let ts ← parseTs fromisoformat e.timestamp
  -- a timestamp that does not parse raises before the type is looked at
  if e.type = "task.claimed" then
    some { s with claimedAt := match s.claimedAt with | none => some ts | some t => some t }
  else if e.type = "task.heartbeat" then some { s with hb := later s.hb ts }
  else if e.type = "task.workdir_changed" then some { s with workdirAt := later s.workdirAt ts }
  else if e.type = "task.state_changed" then do
    let hit ← terminalHit e.data
    some (if hit then { s with terminal := true } else s)
  else some s

/-- `WatchState.from_events`. -/
def WatchState.fromEvents (events : List StoredEventView) (now : ℤ) (taskTimeoutS : ℚ) :
    Option WatchState := do
  let s ← events.foldlM (Signals.observe fromisoformat) {}
  some {
    now
    claimedAt := s.claimedAt
    lastHeartbeatAt := s.hb
    lastWorkdirChangeAt := s.workdirAt
    terminal := s.terminal
    taskTimeoutS }

end fold

/-! ### The rules -/

/-- The levels of a verdict. -/
inductive Level
  | ok
  | approachingTimeout
  | stalled
  | crashed
  deriving DecidableEq

/-- `Verdict`. -/
structure Verdict where
  level : Level
  reason : String

/-- `Verdict.is_alert`. -/
def Verdict.isAlert (v : Verdict) : Bool := v.level ≠ .ok

/-- Round to the nearest integer, half to even. -/
def roundHalfEven (q : ℚ) : ℤ :=
  let f := q.floor
  if q - f < 1 / 2 then f
  else if 1 / 2 < q - f then f + 1
  else if f % 2 = 0 then f else f + 1

/-- `f"{q:.0f}"`. -/
def fixed0 (q : ℚ) : String :=
  (if q < 0 then "-" else "") ++ toString (roundHalfEven (if q < 0 then -q else q))

/-- `(now - t).total_seconds()`. -/
def age (now t : ℤ) : ℚ := ((now - t : ℤ) : ℚ) / 1000000

/-- `AnomalyRule`. -/
abbrev AnomalyRule := WatchState → Option Verdict

/-- `Crashed(crash_s).evaluate`. -/
def crashed (crashS : ℚ) : AnomalyRule := fun s =>
  match s.terminal, s.lastHeartbeatAt with
  | false, some hb =>
    if crashS < age s.now hb then
      some ⟨.crashed, "no heartbeat for " ++ fixed0 (age s.now hb) ++ "s"⟩
    else none
  | _, _ => none

/-- `s.last_workdir_change_at or s.claimed_at`. -/
def WatchState.progressedAt (s : WatchState) : Option ℤ := s.lastWorkdirChangeAt <|> s.claimedAt

/-- `Stall(stall_s, crash_s).evaluate`. -/
def stall (stallS crashS : ℚ) : AnomalyRule := fun s =>
  match s.terminal, s.lastHeartbeatAt with
  | false, some hb =>
    -- that's `Crashed`'s call
    if crashS < age s.now hb then none
    else
      match s.progressedAt with
      | none => none
      | some t =>
        if stallS < age s.now t then
          some ⟨.stalled, "alive (hb " ++ fixed0 (age s.now hb) ++ "s) but no workdir progress for "
            ++ fixed0 (age s.now t) ++ "s"⟩
        else none
  | _, _ => none

/-- `ApproachingTimeout(fraction).evaluate`. -/
def approachingTimeout (fraction : ℚ) : AnomalyRule := fun s =>
  match s.terminal, s.claimedAt with
  | false, some t =>
    if s.taskTimeoutS ≤ 0 then none
    else if fraction * s.taskTimeoutS < age s.now t then
      some ⟨.approachingTimeout, "elapsed " ++ fixed0 (age s.now t) ++ "s > "
        ++ fixed0 (100 * fraction) ++ "% of " ++ fixed0 s.taskTimeoutS ++ "s timeout"⟩
    else none
  | _, _ => none

/-- `evaluate`. -/
def evaluate (state : WatchState) (rules : List AnomalyRule) : Verdict :=
  match rules.findSome? fun rule => rule state with
  | some v => v
  | none => ⟨.ok, if state.terminal then "terminal" else "progressing"⟩

/-- `default_rules`. -/
def defaultRules (stallS crashS fraction : ℚ) : List AnomalyRule :=
  [crashed crashS, stall stallS crashS, approachingTimeout fraction]

/-! #### When a rule raises nothing -/

variable {s : WatchState} {v : Verdict}

theorem crashed_eq_none_iff {crashS : ℚ} :
    crashed crashS s = none ↔
      s.terminal = true ∨ ∀ t ∈ s.lastHeartbeatAt, age s.now t ≤ crashS := by
  simp only [crashed]
  cases s.terminal <;> cases s.lastHeartbeatAt <;> simp

theorem level_of_crashed {crashS : ℚ} (h : crashed crashS s = some v) : v.level = .crashed := by
  rw [crashed] at h
  split at h
  · split_ifs at h
    exact Option.some.inj h ▸ rfl
  · exact nomatch h

theorem stall_eq_none_iff {stallS crashS : ℚ} :
    stall stallS crashS s = none ↔
      s.terminal = true ∨ ∀ hb ∈ s.lastHeartbeatAt, age s.now hb ≤ crashS →
        ∀ t ∈ s.progressedAt, age s.now t ≤ stallS := by
  simp only [stall]
  cases s.terminal <;> cases s.lastHeartbeatAt <;> cases s.progressedAt <;> simp

theorem level_of_stall {stallS crashS : ℚ} (h : stall stallS crashS s = some v) :
    v.level = .stalled := by
  rw [stall] at h
  split at h
  · split_ifs at h
    split at h
    · exact nomatch h
    · split_ifs at h
      exact Option.some.inj h ▸ rfl
  · exact nomatch h

theorem approachingTimeout_eq_none_iff {fraction : ℚ} :
    approachingTimeout fraction s = none ↔
      s.terminal = true ∨ s.taskTimeoutS ≤ 0 ∨
        ∀ t ∈ s.claimedAt, age s.now t ≤ fraction * s.taskTimeoutS := by
  simp only [approachingTimeout]
  rcases lt_or_ge 0 s.taskTimeoutS with hpos | hneg
  · cases s.terminal <;> cases s.claimedAt <;> simp [not_le.mpr hpos]
  · cases s.terminal <;> cases s.claimedAt <;> simp [hneg]

theorem level_of_approachingTimeout {fraction : ℚ} (h : approachingTimeout fraction s = some v) :
    v.level = .approachingTimeout := by
  rw [approachingTimeout] at h
  split at h
  · split_ifs at h
    exact Option.some.inj h ▸ rfl
  · exact nomatch h

/-- The verdict is `OK` when no default rule raises anything. -/
theorem level_evaluate_ok_iff {stallS crashS fraction : ℚ} :
    (evaluate s (defaultRules stallS crashS fraction)).level = .ok ↔
      crashed crashS s = none ∧ stall stallS crashS s = none ∧
        approachingTimeout fraction s = none := by
  simp only [evaluate, defaultRules, List.findSome?_cons, List.findSome?_nil]
  cases hc : crashed crashS s with
  | some v => simp [level_of_crashed hc]
  | none =>
    cases hs : stall stallS crashS s with
    | some v => simp [level_of_stall hs]
    | none =>
      cases ha : approachingTimeout fraction s with
      | some v => simp [level_of_approachingTimeout ha]
      | none => simp

/-- **When the default rules raise nothing**: the history is terminal, or no clock has run
out. -/
theorem level_evaluate_ok_iff_fresh {stallS crashS fraction : ℚ} (htimeout : 0 < s.taskTimeoutS) :
    (evaluate s (defaultRules stallS crashS fraction)).level = .ok ↔
      s.terminal = true ∨
        ((∀ t ∈ s.lastHeartbeatAt, age s.now t ≤ crashS) ∧
          (s.lastHeartbeatAt.isSome → ∀ t ∈ s.progressedAt, age s.now t ≤ stallS) ∧
          ∀ t ∈ s.claimedAt, age s.now t ≤ fraction * s.taskTimeoutS) := by
  rw [level_evaluate_ok_iff, crashed_eq_none_iff, stall_eq_none_iff,
    approachingTimeout_eq_none_iff]
  cases s.terminal with
  | true => simp
  | false =>
    simp only [Bool.false_eq_true, false_or, not_le.mpr htimeout]
    refine and_congr_right fun hfresh => and_congr_left fun _ => ?_
    cases hhb : s.lastHeartbeatAt with
    | none => simp
    | some hb =>
      simp only [Option.mem_some_iff, forall_eq', Option.isSome_some, true_imp_iff]
      exact imp_iff_right (hfresh hb hhb)

/-! ### The fold, over the whole list -/

section spec

variable (fromisoformat : String → Option Datetime)

/-- A view that the loop can read: its timestamp parses and, where the loop looks for it, its
status can be looked up. -/
def Readable (e : StoredEventView) : Prop :=
  (parseTs fromisoformat e.timestamp).isSome ∧
    (e.type = "task.state_changed" → (terminalHit e.data).isSome)

instance (e : StoredEventView) : Decidable (Readable fromisoformat e) :=
  inferInstanceAs (Decidable (_ ∧ _))

/-- A `task.claimed`. -/
def IsClaim (e : StoredEventView) : Prop := e.type = "task.claimed"

instance (e : StoredEventView) : Decidable (IsClaim e) := inferInstanceAs (Decidable (_ = _))

/-- A `task.state_changed` into a terminal status. -/
def IsTerminal (e : StoredEventView) : Prop :=
  e.type = "task.state_changed" ∧ terminalHit e.data = some true

instance (e : StoredEventView) : Decidable (IsTerminal e) := inferInstanceAs (Decidable (_ ∧ _))

/-- The points in time of the events of a type, in the order of the list. -/
def timesOf (type : String) (events : List StoredEventView) : List ℤ :=
  events.filterMap fun e => if e.type = type then parseTs fromisoformat e.timestamp else none

/-- The time of the first event of a type. -/
def firstAt (type : String) (events : List StoredEventView) : Option ℤ :=
  (timesOf fromisoformat type events).head?

/-- The latest time of an event of a type. -/
def latestAt (type : String) (events : List StoredEventView) : Option ℤ :=
  (timesOf fromisoformat type events).max?

/-- What the loop has found out of the events it has seen. -/
def signalsOf (events : List StoredEventView) : Signals where
  claimedAt := firstAt fromisoformat "task.claimed" events
  hb := latestAt fromisoformat "task.heartbeat" events
  workdirAt := latestAt fromisoformat "task.workdir_changed" events
  terminal := events.any fun e => IsTerminal e

theorem max?_concat (l : List ℤ) (t : ℤ) : (l ++ [t]).max? = later l.max? t := by
  cases l with
  | nil => rfl
  | cons a l =>
    simp only [List.cons_append, List.max?_cons', List.foldl_append, List.foldl_cons,
      List.foldl_nil, later]
    rw [← apply_ite some, max_def_lt]

/-- One turn of the loop: it needs a readable view, and takes it into account. -/
theorem observe_signalsOf (events : List StoredEventView) (e : StoredEventView) :
    (signalsOf fromisoformat events).observe fromisoformat e =
      if Readable fromisoformat e then some (signalsOf fromisoformat (events ++ [e]))
      else none := by
  have htimes : ∀ type, timesOf fromisoformat type (events ++ [e]) =
      timesOf fromisoformat type events ++ timesOf fromisoformat type [e] := fun type =>
    List.filterMap_append
  cases hts : parseTs fromisoformat e.timestamp with
  | none => simp [Signals.observe, Readable, hts]
  | some ts =>
    have hone : ∀ type, timesOf fromisoformat type [e] = if e.type = type then [ts] else [] := by
      intro type
      simp only [timesOf, List.filterMap_cons, List.filterMap_nil, hts]
      split_ifs <;> rfl
    simp only [Signals.observe, hts, Option.bind_eq_bind, Option.bind_some, signalsOf, firstAt,
      latestAt, htimes, hone, List.any_append, Readable]
    -- the types the loop asks for, in its order; each turn touches one signal only
    by_cases hclaim : e.type = "task.claimed"
    · cases timesOf fromisoformat "task.claimed" events <;> simp [hclaim, IsTerminal]
    by_cases hheart : e.type = "task.heartbeat"
    · simp [hheart, IsTerminal, max?_concat]
    by_cases hwork : e.type = "task.workdir_changed"
    · simp [hwork, IsTerminal, max?_concat]
    by_cases hstate : e.type = "task.state_changed"
    · rcases hhit : terminalHit e.data with _ | _ | _ <;> simp [hstate, hhit, IsTerminal]
    · simp [hclaim, hheart, hwork, hstate, IsTerminal]

/-- **The whole loop.** -/
theorem foldlM_observe (events : List StoredEventView) :
    events.foldlM (Signals.observe fromisoformat) {} =
      if ∀ e ∈ events, Readable fromisoformat e then some (signalsOf fromisoformat events)
      else none := by
  induction events using List.reverseRecOn with
  | nil => rfl
  | append_singleton events e ih =>
    rw [List.foldlM_append, ih]
    simp only [List.forall_mem_append, List.forall_mem_singleton]
    by_cases hall : ∀ e ∈ events, Readable fromisoformat e
    · simp only [if_pos hall, List.foldlM_cons, List.foldlM_nil, bind_pure]
      refine (observe_signalsOf fromisoformat events e).trans ?_
      exact if_congr (and_iff_right hall).symm rfl rfl
    · rw [if_neg hall, if_neg (not_and_of_not_left _ hall)]
      rfl

/-- The state that the signals of a list amount to. -/
def WatchState.ofEvents (events : List StoredEventView) (now : ℤ) (taskTimeoutS : ℚ) :
    WatchState where
  now
  claimedAt := firstAt fromisoformat "task.claimed" events
  lastHeartbeatAt := latestAt fromisoformat "task.heartbeat" events
  lastWorkdirChangeAt := latestAt fromisoformat "task.workdir_changed" events
  terminal := events.any fun e => IsTerminal e
  taskTimeoutS

/-- **What `from_events` computes**: it needs readable views, and its state is the one the
list amounts to. -/
theorem fromEvents_eq_some_iff {events : List StoredEventView} {now : ℤ} {taskTimeoutS : ℚ}
    {state : WatchState} :
    WatchState.fromEvents fromisoformat events now taskTimeoutS = some state ↔
      (∀ e ∈ events, Readable fromisoformat e) ∧
        state = WatchState.ofEvents fromisoformat events now taskTimeoutS := by
  rw [WatchState.fromEvents, foldlM_observe]
  by_cases hall : ∀ e ∈ events, Readable fromisoformat e
  · simp only [if_pos hall, Option.bind_eq_bind, Option.bind_some, Option.some.injEq]
    exact ⟨fun h => ⟨hall, h.symm⟩, fun h => h.2.symm⟩
  · simp only [if_neg hall, Option.bind_eq_bind, Option.bind_none, reduceCtorEq, false_iff]
    exact fun h => hall h.1

end spec

end Vfobs
