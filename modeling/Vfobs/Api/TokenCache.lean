import Vfobs.Api.ConcurrentAuth
import Vfobs.Foundations.LatestPer

/-!
# What the token cache remembers

However the calls of `verify` interleave, the cache has one entry for each key: the principal of
the validation that vtaskforge has approved last, with the time that its call had read from the
clock. That need not be the validation that was started last, so that a slow one takes the entry
back in time.

`verify_asks_iff`: so vtaskforge is asked about a token exactly when the validation of its key that
was completed last is none, or has read the clock `ttl` or more ago.
-/

namespace Vfobs

open StepSystem

namespace AuthWorld

variable {β : Type} {hashPrefix : String → String} {loads : β → Except PyException Json}
  {w w' : AuthWorld β} {a : Action β} {ttl clock : ℚ}

/-- The calls that were let in by a validation of their own, in the order of the approvals. -/
def validated (w : AuthWorld β) : List Accepted := w.accepted.filter fun r => r.own.isSome

/-- The last approval of a token with a given key. -/
def lastValidated (hashPrefix : String → String) (w : AuthWorld β) (key : String) :
    Option Accepted :=
  LatestPer.lastOf (fun r : Accepted => hashPrefix r.token) key w.validated

/-- The cache has the last approvals. -/
structure Remembers (hashPrefix : String → String) (ttl : ℚ) (w : AuthWorld β) : Prop where
  ttl_eq : w.auth.ttl = ttl
  key : ∀ s ∈ w.suspended, s.key = hashPrefix s.token
  cache : ∀ key, w.auth.cache key =
    (w.lastValidated hashPrefix key).map fun r => (r.principal, r.now)

/-- **The step lemma.** -/
theorem Remembers.step (hw : w.Remembers hashPrefix ttl)
    (h : w.step hashPrefix loads a = some w') : w'.Remembers hashPrefix ttl := by
  cases step_effect h with
  | pass => exact ⟨hw.ttl_eq, hw.key, hw.cache⟩
  | missing => exact hw
  | hit =>
    refine ⟨hw.ttl_eq, hw.key, fun key => ?_⟩
    -- a hit is let in without a validation of its own
    rw [hw.cache, lastValidated, lastValidated, validated, validated, List.filter_append]
    exact congrArg (Option.map _ ∘ LatestPer.lastOf _ key) (List.append_nil _).symm
  | miss =>
    refine ⟨hw.ttl_eq, fun s hs => ?_, hw.cache⟩
    rcases List.mem_append.mp hs with hs | hs
    · exact hw.key s hs
    · exact List.mem_singleton.mp hs ▸ rfl
  | @answer s hs upstream =>
    obtain ⟨who, -, hw'⟩ | hw' := finish_cases loads w s upstream
    · rw [hw']
      refine ⟨hw.ttl_eq, fun s' hs' => hw.key s' (List.mem_of_mem_filter hs'), fun key => ?_⟩
      have hvalidated : ∀ r : Accepted, r.own.isSome →
          (w.accepted ++ [r]).filter (fun r => r.own.isSome) = w.validated ++ [r] := by
        intro r hr
        rw [List.filter_append, List.filter_singleton, hr]
        rfl
      rw [lastValidated, validated, hvalidated _ rfl, LatestPer.lastOf_concat, ← hw.key s hs]
      -- the entry of the key is overwritten, whatever it had read from the clock
      by_cases hkey : s.key = key
      · rw [if_pos hkey, ← hkey]
        exact Function.update_self ..
      · rw [if_neg hkey]
        exact (Function.update_of_ne (Ne.symm hkey) ..).trans (hw.cache key)
    · rw [hw']
      exact ⟨hw.ttl_eq, fun s' hs' => hw.key s' (List.mem_of_mem_filter hs'), hw.cache⟩

theorem remembers_of_run {acts : List (Action β)}
    (hrun : run (step hashPrefix loads) (init ttl clock) acts = some w) :
    w.Remembers hashPrefix ttl :=
  run_invariant (I := Remembers hashPrefix ttl) (fun _ _ _ hw h => hw.step h)
    ⟨rfl, by simp [init], fun _ => rfl⟩ hrun

/-- The cache lets in on the last approval, while that is younger than `ttl`. -/
theorem Remembers.lookup_eq_some_iff (hw : w.Remembers hashPrefix ttl) {key : String}
    {principal : Principal} :
    w.auth.lookup key w.clock = some principal ↔
      ∃ r ∈ w.lastValidated hashPrefix key, w.clock - r.now < ttl ∧ r.principal = principal := by
  rw [VtfTokenAuth.lookup_eq_some_iff, hw.cache, hw.ttl_eq]
  cases w.lastValidated hashPrefix key with
  | none => simp
  | some r => simp [and_comm]

/-- **When vtaskforge is asked.** In every run, from a new strategy on, whatever calls are
suspended: a call with a token asks vtaskforge about it if and only if there is no approval for the
key of the token, or the last one belongs to a call that has read the clock `ttl` or more ago; and
if not, it returns the principal of that approval at once. -/
theorem verify_asks_iff {acts : List (Action β)}
    (hrun : run (step hashPrefix loads) (init ttl clock) acts = some w) {token : String}
    (htoken : token ≠ "") {startedAt : ℚ}
    (h : w.step hashPrefix loads (.verify (some token) startedAt) = some w') :
    (w'.calls = w.calls ++ [⟨token, startedAt⟩] ↔
        ∀ r ∈ w.lastValidated hashPrefix (hashPrefix token), ttl ≤ w.clock - r.now) ∧
      ∀ r ∈ w.lastValidated hashPrefix (hashPrefix token), w.clock - r.now < ttl →
        w' = { w with accepted := w.accepted ++ [⟨token, w.clock, r.principal, none⟩] } := by
  have hw := remembers_of_run hrun
  set last := w.lastValidated hashPrefix (hashPrefix token)
  simp only [step, begin] at h
  cases hstart : w.auth.start hashPrefix (some token) w.clock with
  | missing =>
    simp only [VtfTokenAuth.start, if_neg htoken] at hstart
    split at hstart <;> simp at hstart
  | hit principal =>
    rw [hstart] at h
    obtain rfl := Option.some.inj h
    obtain ⟨t, ht, -, hlookup⟩ := VtfTokenAuth.start_eq_hit_iff.mp hstart
    obtain rfl := Option.some.inj ht
    obtain ⟨r, hr, hfresh, rfl⟩ := hw.lookup_eq_some_iff.mp hlookup
    refine ⟨iff_of_false (by simp) fun hold => absurd (hold r hr) (not_le.mpr hfresh), ?_⟩
    intro r' hr' _
    rw [Option.mem_unique hr' hr]
    rfl
  | miss t key =>
    obtain ⟨ht, -, -, hlookup⟩ := VtfTokenAuth.start_eq_miss_iff.mp hstart
    obtain rfl := Option.some.inj ht
    have hold : ∀ r ∈ last, ttl ≤ w.clock - r.now := by
      intro r hr
      refine not_lt.mp fun hfresh => ?_
      have hsome := hw.lookup_eq_some_iff.mpr ⟨r, hr, hfresh, rfl⟩
      exact absurd (hlookup.symm.trans hsome) (by simp)
    simp only [hstart, Option.ite_none_right_eq_some] at h
    obtain rfl := Option.some.inj h.2
    exact ⟨iff_of_true rfl hold, fun r hr hfresh => absurd (hold r hr) (not_le.mpr hfresh)⟩

/-- Two calls with a token are suspended at once, and the earlier one is approved last. -/
def overtaken : List (Action Json) :=
  [.verify (some "t") 0, .pass 50, .verify (some "t") 50,
    .answer 1 (.response 200 (.obj [("user_id", .str "u")])),
    .answer 0 (.response 200 (.obj [("user_id", .str "u")])), .pass 60]

/-- At a minute, ten seconds after a call that was approved, vtaskforge is asked again. -/
theorem verify_asks_iff_overtaken :
    ∃ w w' : AuthWorld Json, run (step id .ok) (init 60 0) overtaken = some w ∧
      w.step id .ok (.verify (some "t") 60) = some w' ∧
      (w'.calls = w.calls ++ [⟨"t", 60⟩] ↔
        ∀ r ∈ w.lastValidated id "t", 60 ≤ w.clock - r.now) ∧
      (w.lastValidated id "t").map Accepted.now = some 0 := by
  have hrun : (run (step id .ok) (init 60 0) overtaken).map
      (fun w => ((w.step id .ok (.verify (some "t") 60)).isSome,
        (w.lastValidated id "t").map Accepted.now)) = some (true, some 0) := by decide +kernel
  obtain ⟨w, hrun, hlast⟩ := Option.map_eq_some_iff.mp hrun
  obtain ⟨hsome, hlast⟩ := Prod.mk.inj hlast
  obtain ⟨w', hw'⟩ := Option.isSome_iff_exists.mp hsome
  exact ⟨w, w', hrun, hw', (verify_asks_iff hrun (by decide) hw').1, hlast⟩

end AuthWorld

end Vfobs
