import Vfobs.Api.ReadAuth
import Vfobs.Foundations.Run
import Mathlib.Data.List.Basic
import Mathlib.Tactic.Linarith

/-!
# The token cache among concurrent requests

Each request runs `VtfTokenAuth.verify` of its own over one cache. A call is suspended while
vtaskforge validates its token, so that the others go on in between, and the answers come in
any order, or never. The time that a call has read from the clock before it was suspended is
the time of the entry it makes afterwards: entries may go back in time.

`AuthWorld` has the calls of `validate_token` and their answers beside the cache, so that a
principal can be traced to its approval. `Traced` is the invariant: every entry of the cache
is an approval of a token with its key, by a call that was not started before the time of the
entry. `auth_cache_fresh`: a principal is only ever returned for a token that vtaskforge has
approved for that principal, in the call's own validation or in one that was started less
than `ttl` before the call.
-/

namespace Vfobs

open StepSystem

/-- A call of `validate_token`. -/
structure ValidateCall where
  token : String
  startedAt : ℚ

/-- A `verify` that is suspended: its variables, and the number of its validation. -/
structure Suspended where
  call : ℕ
  token : String
  key : String
  now : ℚ

/-- A `verify` that has returned a principal: its token, what it has read from the clock, and
the number of its own validation, if it made one. -/
structure Accepted where
  token : String
  now : ℚ
  principal : Principal
  own : Option ℕ
  deriving DecidableEq

/-- The strategy, the clock, and the history of the calls. -/
structure AuthWorld (β : Type) where
  auth : VtfTokenAuth
  clock : ℚ
  calls : List ValidateCall := []
  answers : List (ℕ × Upstream β) := []
  suspended : List Suspended := []
  accepted : List Accepted := []

namespace AuthWorld

/-- What happens next. -/
inductive Action (β : Type)
  /-- Time passes. -/
  | pass (clock : ℚ)
  /-- `verify` is called; if it asks vtaskforge, it does so at `startedAt`. -/
  | verify (token : Option String) (startedAt : ℚ)
  /-- vtaskforge answers a validation. -/
  | answer (call : ℕ) (upstream : Upstream β)

variable {β : Type} (hashPrefix : String → String) (loads : β → Except PyException Json)

/-- `verify` up to its suspension. -/
def begin (w : AuthWorld β) (token : Option String) (startedAt : ℚ) : Option (AuthWorld β) :=
  match w.auth.start hashPrefix token w.clock with
  | .missing => some w
  | .hit principal => some { w with
      accepted := w.accepted ++ [⟨token.getD "", w.clock, principal, none⟩] }
  | .miss token key =>
    if w.clock ≤ startedAt then some { w with
      clock := startedAt
      calls := w.calls ++ [⟨token, startedAt⟩]
      suspended := w.suspended ++ [⟨w.calls.length, token, key, w.clock⟩] }
    else none

/-- `verify` after its suspension. -/
def finish (w : AuthWorld β) (s : Suspended) (upstream : Upstream β) : AuthWorld β :=
  let (outcome, auth) := w.auth.resume s.key s.now (validateToken loads upstream)
  { w with
    auth
    answers := w.answers ++ [(s.call, upstream)]
    suspended := w.suspended.filter fun s' => s'.call ≠ s.call
    accepted := match outcome with
      | .ok principal => w.accepted ++ [⟨s.token, s.now, principal, some s.call⟩]
      | .error _ => w.accepted }

/-- One uninterrupted stretch; `none` where it cannot happen. -/
def step (w : AuthWorld β) : Action β → Option (AuthWorld β)
  | .pass clock => if w.clock ≤ clock then some { w with clock } else none
  | .verify token startedAt => w.begin hashPrefix token startedAt
  | .answer call upstream =>
    (w.suspended.find? fun s => s.call = call).map fun s => w.finish loads s upstream

/-- The strategy is constructed. -/
def init (ttl clock : ℚ) : AuthWorld β where
  auth := ⟨ttl, fun _ => none⟩
  clock

/-- The token that an action presents. -/
def Action.token? : Action β → Option String
  | verify token _ => token
  | _ => none

/-- The tokens that are presented in a run. -/
def presented (acts : List (Action β)) : List String := acts.filterMap Action.token?

/-! ### What a step can do -/

/-- Everything a step can do. -/
inductive Effect (w : AuthWorld β) : Action β → AuthWorld β → Prop
  | pass {clock : ℚ} (hle : w.clock ≤ clock) : Effect w (.pass clock) { w with clock }
  /-- A request without a token is denied at once. -/
  | missing (token : Option String) (startedAt : ℚ) : Effect w (.verify token startedAt) w
  | hit {token : String} {principal : Principal} (startedAt : ℚ)
      (hlookup : w.auth.lookup (hashPrefix token) w.clock = some principal) :
      Effect w (.verify (some token) startedAt)
        { w with accepted := w.accepted ++ [⟨token, w.clock, principal, none⟩] }
  | miss {token : String} {startedAt : ℚ} (hle : w.clock ≤ startedAt) :
      Effect w (.verify (some token) startedAt)
        { w with
          clock := startedAt
          calls := w.calls ++ [⟨token, startedAt⟩]
          suspended := w.suspended ++ [⟨w.calls.length, token, hashPrefix token, w.clock⟩] }
  | answer {s : Suspended} (hs : s ∈ w.suspended) (upstream : Upstream β) :
      Effect w (.answer s.call upstream) (w.finish loads s upstream)

variable {hashPrefix loads} {w w' : AuthWorld β} {a : Action β} {tokens : List String} {ttl : ℚ}

/-- **The inversion lemma.** -/
theorem step_effect (h : w.step hashPrefix loads a = some w') :
    Effect hashPrefix loads w a w' := by
  cases a with
  | pass clock =>
    simp only [step, Option.ite_none_right_eq_some] at h
    obtain ⟨hle, h⟩ := h
    obtain rfl := Option.some.inj h
    exact .pass hle
  | verify token startedAt =>
    simp only [step, begin] at h
    cases hstart : w.auth.start hashPrefix token w.clock with
    | missing =>
      rw [hstart] at h
      obtain rfl := Option.some.inj h
      exact .missing token startedAt
    | hit principal =>
      obtain ⟨t, rfl, -, hlookup⟩ := VtfTokenAuth.start_eq_hit_iff.mp hstart
      rw [hstart] at h
      obtain rfl := Option.some.inj h
      exact .hit startedAt hlookup
    | miss t key =>
      obtain ⟨rfl, -, rfl, -⟩ := VtfTokenAuth.start_eq_miss_iff.mp hstart
      simp only [hstart, Option.ite_none_right_eq_some] at h
      obtain ⟨hle, h⟩ := h
      obtain rfl := Option.some.inj h
      exact .miss hle
  | answer call upstream =>
    obtain ⟨s, hs, rfl⟩ := Option.map_eq_some_iff.mp h
    have hcall : s.call = call := by simpa using List.find?_some hs
    exact hcall ▸ .answer (List.mem_of_find?_eq_some hs) upstream

/-- What an answer makes of the state: a principal for the call and for the cache, or
nothing. -/
theorem finish_cases (loads : β → Except PyException Json) (w : AuthWorld β) (s : Suspended)
    (upstream : Upstream β) :
    (∃ who, validateToken loads upstream = .ok who ∧ w.finish loads s upstream =
      { w with
        auth := { w.auth with
          cache := Function.update w.auth.cache s.key (some (who.principal, s.now)) }
        answers := w.answers ++ [(s.call, upstream)]
        suspended := w.suspended.filter fun s' => s'.call ≠ s.call
        accepted := w.accepted ++ [⟨s.token, s.now, who.principal, some s.call⟩] }) ∨
    w.finish loads s upstream =
      { w with
        answers := w.answers ++ [(s.call, upstream)]
        suspended := w.suspended.filter fun s' => s'.call ≠ s.call } := by
  obtain ⟨who, hwho, hresume⟩ | ⟨-, hresume⟩ :=
    w.auth.resume_validateToken loads s.key s.now upstream
  · exact .inl ⟨who, hwho, by simp only [finish, hresume]⟩
  · exact .inr (by simp only [finish, hresume])

/-! ### Approvals -/

/-- Nothing of the history is taken back. -/
structure Extends (w w' : AuthWorld β) : Prop where
  calls : ∀ (i : ℕ) (c : ValidateCall), w.calls[i]? = some c → w'.calls[i]? = some c
  answers : w.answers ⊆ w'.answers
  clock : w.clock ≤ w'.clock

/-- Validation `call` is one of `token`, and vtaskforge has answered it with `principal`. -/
structure Approves (loads : β → Except PyException Json) (w : AuthWorld β) (call : ℕ)
    (c : ValidateCall) (token : String) (principal : Principal) : Prop where
  called : w.calls[call]? = some c
  token_eq : c.token = token
  answered : ∃ upstream who, (call, upstream) ∈ w.answers ∧
    validateToken loads upstream = .ok who ∧ who.principal = principal

theorem Approves.extend {call : ℕ} {c : ValidateCall} {token : String} {principal : Principal}
    (h : Approves loads w call c token principal) (hext : Extends w w') :
    Approves loads w' call c token principal := by
  obtain ⟨hcall, htoken, upstream, who, hmem, hwho, hprincipal⟩ := h
  exact ⟨hext.calls call c hcall, htoken, upstream, who, hext.answers hmem, hwho, hprincipal⟩

/-- **Every step extends the history.** -/
theorem Effect.extends (h : Effect hashPrefix loads w a w') : Extends w w' := by
  cases h with
  | pass hle => exact ⟨fun _ _ hc => hc, fun _ hmem => hmem, hle⟩
  | missing | hit => exact ⟨fun _ _ hc => hc, fun _ hmem => hmem, le_rfl⟩
  | miss hle =>
    refine ⟨fun i c hc => ?_, fun _ hmem => hmem, hle⟩
    have hlt : i < w.calls.length := (List.getElem?_eq_some_iff.mp hc).1
    exact (List.getElem?_append_left hlt).trans hc
  | @answer s _ upstream =>
    have hanswers : (w.finish loads s upstream).answers = w.answers ++ [(s.call, upstream)] := by
      rcases finish_cases loads w s upstream with ⟨who, -, hw⟩ | hw <;> rw [hw]
    refine ⟨fun i c hc => ?_, hanswers ▸ List.subset_append_left _ _, ?_⟩
    · rcases finish_cases loads w s upstream with ⟨who, -, hw⟩ | hw <;> rwa [hw]
    · rcases finish_cases loads w s upstream with ⟨who, -, hw⟩ | hw <;> rw [hw]

/-! ### The invariant -/

/-- An entry of the cache is an approval that was asked for at its time or later. -/
def EntryTraced (hashPrefix : String → String) (loads : β → Except PyException Json)
    (tokens : List String) (w : AuthWorld β) (key : String) (principal : Principal) (since : ℚ) :
    Prop :=
  ∃ call c token, token ∈ tokens ∧ hashPrefix token = key ∧
    Approves loads w call c token principal ∧ since ≤ c.startedAt ∧ c.startedAt ≤ w.clock

/-- A suspended call waits for a validation of its token. -/
def SuspendedTraced (hashPrefix : String → String) (tokens : List String) (w : AuthWorld β)
    (s : Suspended) : Prop :=
  s.token ∈ tokens ∧ s.key = hashPrefix s.token ∧ ∃ c, w.calls[s.call]? = some c ∧
    c.token = s.token ∧ s.now ≤ c.startedAt ∧ c.startedAt ≤ w.clock

/-- The principal of a call was approved in its own validation, or in one that was started
less than `ttl` before the call. -/
def AcceptedFresh (loads : β → Except PyException Json) (ttl : ℚ) (w : AuthWorld β)
    (r : Accepted) : Prop :=
  ∃ call c, Approves loads w call c r.token r.principal ∧
    (r.own = some call ∨ c.startedAt ≤ r.now ∧ r.now - c.startedAt < ttl)

/-- What every reachable state keeps, in a run that presents `tokens` only. -/
structure Traced (hashPrefix : String → String) (loads : β → Except PyException Json)
    (tokens : List String) (ttl : ℚ) (w : AuthWorld β) : Prop where
  ttl_eq : w.auth.ttl = ttl
  cache : ∀ key principal since, w.auth.cache key = some (principal, since) →
    EntryTraced hashPrefix loads tokens w key principal since
  suspended : ∀ s ∈ w.suspended, SuspendedTraced hashPrefix tokens w s
  accepted : ∀ r ∈ w.accepted, AcceptedFresh loads ttl w r

theorem EntryTraced.extend {key : String} {principal : Principal} {since : ℚ}
    (h : EntryTraced hashPrefix loads tokens w key principal since) (hext : Extends w w') :
    EntryTraced hashPrefix loads tokens w' key principal since := by
  obtain ⟨call, c, token, htoken, hkey, happroves, hsince, hclock⟩ := h
  exact ⟨call, c, token, htoken, hkey, happroves.extend hext, hsince, hclock.trans hext.clock⟩

theorem SuspendedTraced.extend {s : Suspended} (h : SuspendedTraced hashPrefix tokens w s)
    (hext : Extends w w') : SuspendedTraced hashPrefix tokens w' s := by
  obtain ⟨htoken, hkey, c, hcall, hc, hnow, hclock⟩ := h
  exact ⟨htoken, hkey, c, hext.calls _ c hcall, hc, hnow, hclock.trans hext.clock⟩

theorem AcceptedFresh.extend {r : Accepted} (h : AcceptedFresh loads ttl w r)
    (hext : Extends w w') : AcceptedFresh loads ttl w' r := by
  obtain ⟨call, c, happroves, hfresh⟩ := h
  exact ⟨call, c, happroves.extend hext, hfresh⟩

theorem traced_init (tokens : List String) (ttl clock : ℚ) :
    Traced hashPrefix loads tokens ttl (init ttl clock : AuthWorld β) where
  ttl_eq := rfl
  cache _ _ _ h := nomatch h
  suspended := by simp [init]
  accepted := by simp [init]

/-- No two of the tokens have the same key. -/
def NoCollision (hashPrefix : String → String) (tokens : List String) : Prop :=
  ∀ t ∈ tokens, ∀ t' ∈ tokens, hashPrefix t = hashPrefix t' → t = t'

/-- A principal from the cache is fresh: the entry is one of the same token, and the
validation behind it was not started before the time of the entry. -/
theorem Traced.acceptedFresh_of_lookup (hw : Traced hashPrefix loads tokens ttl w)
    (hinj : NoCollision hashPrefix tokens) {token : String} (htoken : token ∈ tokens)
    {principal : Principal} (h : w.auth.lookup (hashPrefix token) w.clock = some principal) :
    AcceptedFresh loads ttl w ⟨token, w.clock, principal, none⟩ := by
  obtain ⟨since, hcached, hfresh⟩ := VtfTokenAuth.lookup_eq_some_iff.mp h
  obtain ⟨call, c, token', htoken', hkey, happroves, hsince, hclock⟩ := hw.cache _ _ _ hcached
  obtain rfl := hinj token' htoken' token htoken hkey
  rw [hw.ttl_eq] at hfresh
  exact ⟨call, c, happroves, .inr ⟨hclock, by linarith⟩⟩

/-- **The step lemma.** -/
theorem Traced.step (hw : Traced hashPrefix loads tokens ttl w)
    (hinj : NoCollision hashPrefix tokens) (ha : ∀ t ∈ a.token?, t ∈ tokens)
    (h : w.step hashPrefix loads a = some w') : Traced hashPrefix loads tokens ttl w' := by
  have heffect := step_effect h
  have hext := heffect.extends
  have hcache : ∀ key principal since, w.auth.cache key = some (principal, since) →
      EntryTraced hashPrefix loads tokens w' key principal since :=
    fun key principal since hentry => (hw.cache key principal since hentry).extend hext
  have hsuspended : ∀ s ∈ w.suspended, SuspendedTraced hashPrefix tokens w' s :=
    fun s hs => (hw.suspended s hs).extend hext
  have haccepted : ∀ r ∈ w.accepted, AcceptedFresh loads ttl w' r :=
    fun r hr => (hw.accepted r hr).extend hext
  cases heffect with
  | pass | missing => exact ⟨hw.ttl_eq, hcache, hsuspended, haccepted⟩
  | hit startedAt hlookup =>
    refine ⟨hw.ttl_eq, hcache, hsuspended, fun r hr => ?_⟩
    rcases List.mem_append.mp hr with hr | hr
    · exact haccepted r hr
    · obtain rfl := List.mem_singleton.mp hr
      exact (hw.acceptedFresh_of_lookup hinj (ha _ rfl) hlookup).extend hext
  | @miss token startedAt hle =>
    refine ⟨hw.ttl_eq, hcache, fun s hs => ?_, haccepted⟩
    rcases List.mem_append.mp hs with hs | hs
    · exact hsuspended s hs
    · obtain rfl := List.mem_singleton.mp hs
      exact ⟨ha _ rfl, rfl, ⟨token, startedAt⟩, by simp, rfl, hle, le_rfl⟩
  | @answer s hs upstream =>
    obtain ⟨htoken, hkey, c, hcall, hc, hnow, hclock⟩ := hsuspended s hs
    obtain ⟨who, hwho, hw'⟩ | hw' := finish_cases loads w s upstream
    · rw [hw'] at hcache hsuspended haccepted hcall hclock ⊢
      -- the answer approves the token of the call
      have happroves : Approves loads _ s.call c s.token who.principal :=
        ⟨hcall, hc, upstream, who, List.mem_append_right _ (List.mem_singleton_self _), hwho, rfl⟩
      refine ⟨hw.ttl_eq, fun key principal since hentry => ?_,
        fun s' hs' => hsuspended s' (List.mem_of_mem_filter hs'), fun r hr => ?_⟩
      · replace hentry : Function.update w.auth.cache s.key (some (who.principal, s.now)) key =
            some (principal, since) := hentry
        by_cases hsame : key = s.key
        · rw [hsame, Function.update_self] at hentry
          obtain ⟨rfl, rfl⟩ := Prod.mk.inj (Option.some.inj hentry)
          exact ⟨s.call, c, s.token, htoken, hkey.symm.trans hsame.symm, happroves, hnow, hclock⟩
        · rw [Function.update_of_ne hsame] at hentry
          exact hcache key principal since hentry
      · rcases List.mem_append.mp hr with hr | hr
        · exact haccepted r hr
        · obtain rfl := List.mem_singleton.mp hr
          exact ⟨s.call, c, happroves, .inl rfl⟩
    · rw [hw'] at hcache hsuspended haccepted ⊢
      exact ⟨hw.ttl_eq, hcache, fun s' hs' => hsuspended s' (List.mem_of_mem_filter hs'),
        haccepted⟩

/-- **Freshness.** In every run, from a new strategy on, that presents tokens without a
collision of their keys: whenever a call has returned a principal there is a validation of
that very token that vtaskforge has answered with this principal, and it is the call's own,
or one that was started less than `ttl` before the call read the clock. -/
theorem auth_cache_fresh {ttl clock : ℚ} {acts : List (Action β)}
    (hinj : NoCollision hashPrefix (presented acts))
    (hrun : run (step hashPrefix loads) (init ttl clock) acts = some w) :
    ∀ r ∈ w.accepted, ∃ call c, w.calls[call]? = some c ∧ c.token = r.token ∧
      (∃ upstream who, (call, upstream) ∈ w.answers ∧ validateToken loads upstream = .ok who ∧
        who.principal = r.principal) ∧
      (r.own = some call ∨ c.startedAt ≤ r.now ∧ r.now - c.startedAt < ttl) := by
  have hpresented : ∀ a ∈ acts, ∀ t ∈ a.token?, t ∈ presented acts := fun a ha t ht =>
    List.mem_filterMap.mpr ⟨a, ha, ht⟩
  have hw : Traced hashPrefix loads (presented acts) ttl w :=
    run_invariant_of_forall_mem (I := Traced hashPrefix loads (presented acts) ttl)
      (P := fun a : Action β => ∀ t ∈ a.token?, t ∈ presented acts)
      (fun _ _ _ hw ha h => hw.step hinj ha h) (traced_init _ ttl clock) hpresented hrun
  intro r hr
  obtain ⟨call, c, ⟨hcall, hc, hanswered⟩, hfresh⟩ := hw.accepted r hr
  exact ⟨call, c, hcall, hc, hanswered, hfresh⟩

/-- A call for a token, the answer to it, and a second call with the token. -/
def askedTwice : List (Action Json) :=
  [.verify (some "t") 0, .answer 0 (.response 200 (.obj [("user_id", .str "u")])), .pass 9,
    .verify (some "t") 9]

/-- The second call is answered from the cache, and the validation of the first approves it. -/
theorem auth_cache_fresh_askedTwice :
    ∃ w : AuthWorld Json, run (step id .ok) (init 60 0) askedTwice = some w ∧
      w.accepted = [⟨"t", 0, ⟨"u", none⟩, some 0⟩, ⟨"t", 9, ⟨"u", none⟩, none⟩] ∧
      ∀ r ∈ w.accepted, ∃ call c, w.calls[call]? = some c ∧ c.token = r.token ∧
        (∃ upstream who, (call, upstream) ∈ w.answers ∧ validateToken .ok upstream = .ok who ∧
          who.principal = r.principal) ∧
        (r.own = some call ∨ c.startedAt ≤ r.now ∧ r.now - c.startedAt < 60) := by
  have haccepted : (run (step id .ok) (init 60 0) askedTwice).map AuthWorld.accepted =
      some [⟨"t", 0, ⟨"u", none⟩, some 0⟩, ⟨"t", 9, ⟨"u", none⟩, none⟩] := by decide +kernel
  obtain ⟨w, hrun, haccepted⟩ := Option.map_eq_some_iff.mp haccepted
  exact ⟨w, hrun, haccepted, auth_cache_fresh (fun _ _ _ _ h => h) hrun⟩

end AuthWorld

end Vfobs
