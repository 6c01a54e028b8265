import Vfobs.Adapters.Vtf
import Mathlib.Logic.Function.Basic

/-!
# Authentication of the read API

`VtfTokenAuth.verify` asks vtaskforge to validate a token and keeps the answer for `ttl`
seconds under a prefix of the token's hash. It is suspended once, at its call of
`validate_token`, and is cut there: `start` is what it does before, with the clock it reads,
and `resume` what it does with the answer.

`verify_total`: whatever the cache, the token and the answer of vtaskforge, a principal comes
out or a `401`, and a denial leaves the cache alone.
-/

namespace Vfobs

/-- `Principal`. -/
structure Principal where
  userId : String
  displayName : Option String := none
  deriving DecidableEq

/-- The principal that `verify` makes of a validated token. -/
def VtfPrincipal.principal (who : VtfPrincipal) : Principal where
  userId := who.userId.text
  displayName := who.username

/-- `VtfTokenAuth`: the cache has a principal and the time of its entry under a key. -/
structure VtfTokenAuth where
  ttl : ℚ
  cache : String → Option (Principal × ℚ)

namespace VtfTokenAuth

/-- How `verify` goes on from its lookup. -/
inductive Start
  /-- There is no token. -/
  | missing
  /-- The cache has a principal that is not older than `ttl`. -/
  | hit (principal : Principal)
  /-- The token is sent to vtaskforge. -/
  | miss (token key : String)

/-- `cached is not None and (now - cached[1]) < self._ttl`: the principal that is cached. -/
def lookup (auth : VtfTokenAuth) (key : String) (now : ℚ) : Option Principal :=
  match auth.cache key with
  | some (principal, since) => if now - since < auth.ttl then some principal else none
  | none => none

variable (hashPrefix : String → String)

/-- `verify` up to its call of `validate_token`, with what the clock shows. -/
def start (auth : VtfTokenAuth) (token : Option String) (now : ℚ) : Start :=
  match token with
  | none => .missing
  | some token =>
    if token = "" then .missing
    else
      match auth.lookup (hashPrefix token) now with
      | some principal => .hit principal
      | none => .miss token (hashPrefix token)

/-- `verify` from the answer of `validate_token` on: the outcome, and the cache. -/
def resume (auth : VtfTokenAuth) (key : String) (now : ℚ) :
    Except PyException VtfPrincipal → Except PyException Principal × VtfTokenAuth
  | .error (.vtfAuth _) => (.error (.http 401 "Invalid token"), auth)
  -- no `except` clause takes any other exception
  | .error e => (.error e, auth)
  | .ok who =>
    (.ok who.principal,
      { auth with cache := Function.update auth.cache key (some (who.principal, now)) })

variable {β : Type} (loads : β → Except PyException Json)

/-- `verify`, where vtaskforge answers `upstream` if it is asked. -/
def verify (auth : VtfTokenAuth) (token : Option String) (now : ℚ) (upstream : Upstream β) :
    Except PyException Principal × VtfTokenAuth :=
  match auth.start hashPrefix token now with
  | .missing => (.error (.http 401 "Missing bearer token"), auth)
  | .hit principal => (.ok principal, auth)
  | .miss _ key => auth.resume key now (validateToken loads upstream)

variable {hashPrefix loads} {auth auth' : VtfTokenAuth} {key : String} {now : ℚ}
  {upstream : Upstream β}

theorem lookup_eq_some_iff {principal : Principal} :
    auth.lookup key now = some principal ↔
      ∃ since, auth.cache key = some (principal, since) ∧ now - since < auth.ttl := by
  rw [lookup]
  cases auth.cache key with
  | none => simp
  | some entry =>
    obtain ⟨principal', since⟩ := entry
    simp [and_comm]

theorem start_eq_hit_iff {token : Option String} {principal : Principal} :
    auth.start hashPrefix token now = .hit principal ↔
      ∃ t, token = some t ∧ t ≠ "" ∧ auth.lookup (hashPrefix t) now = some principal := by
  cases token with
  | none => simp [start]
  | some t =>
    rw [start]
    by_cases hempty : t = ""
    · simp [hempty]
    · cases h : auth.lookup (hashPrefix t) now <;> simp [hempty, h]

theorem start_eq_miss_iff {token : Option String} {t : String} :
    auth.start hashPrefix token now = .miss t key ↔
      token = some t ∧ t ≠ "" ∧ key = hashPrefix t ∧ auth.lookup (hashPrefix t) now = none := by
  cases token with
  | none => simp [start]
  | some t' =>
    rw [start]
    by_cases hempty : t' = ""
    · simp only [hempty, if_true, reduceCtorEq, Option.some.injEq, false_iff]
      rintro ⟨rfl, hne, -⟩
      exact hne rfl
    · cases h : auth.lookup (hashPrefix t') now with
      | none =>
        simp only [hempty, if_false, Start.miss.injEq, Option.some.injEq]
        constructor
        · rintro ⟨rfl, rfl⟩
          exact ⟨rfl, hempty, rfl, h⟩
        · rintro ⟨rfl, -, rfl, -⟩
          exact ⟨rfl, rfl⟩
      | some principal =>
        simp only [hempty, if_false, reduceCtorEq, Option.some.injEq, false_iff]
        rintro ⟨rfl, -, -, hnone⟩
        exact nomatch h.symm.trans hnone

/-- **What an answer of vtaskforge leads to**: a principal that is cached, or a denial that
leaves no trace. -/
theorem resume_validateToken (auth : VtfTokenAuth) (loads : β → Except PyException Json)
    (key : String) (now : ℚ) (upstream : Upstream β) :
    (∃ who, validateToken loads upstream = .ok who ∧
      auth.resume key now (validateToken loads upstream) = (.ok who.principal,
        { auth with cache := Function.update auth.cache key (some (who.principal, now)) })) ∨
    (∃ e, validateToken loads upstream = .error e) ∧
      auth.resume key now (validateToken loads upstream) =
        (.error (.http 401 "Invalid token"), auth) := by
  cases h : validateToken loads upstream with
  | ok who => exact .inl ⟨who, rfl, rfl⟩
  | error e =>
    obtain ⟨message, rfl⟩ := vtfAuth_of_validateToken_error h
    exact .inr ⟨⟨_, rfl⟩, rfl⟩

/-- **Total, and denying by default.** For every cache, token, time and answer of vtaskforge:
`verify` returns a principal or raises a `401`; where it raises, the cache is as it was; and
where the cache has no principal for the token, it returns one exactly when vtaskforge has
answered `200` with a body that describes it. -/
theorem verify_total (hashPrefix : String → String) (loads : β → Except PyException Json)
    (auth : VtfTokenAuth) (token : Option String) (now : ℚ) (upstream : Upstream β) :
    ((∃ principal, (auth.verify hashPrefix loads token now upstream).1 = .ok principal) ∨
      ∃ e, (auth.verify hashPrefix loads token now upstream).1 = .error e ∧ e.IsUnauthorized) ∧
    (∀ e, (auth.verify hashPrefix loads token now upstream).1 = .error e →
      (auth.verify hashPrefix loads token now upstream).2 = auth) ∧
    ∀ t ∈ token, t ≠ "" → auth.lookup (hashPrefix t) now = none → ∀ principal,
      (auth.verify hashPrefix loads token now upstream).1 = .ok principal ↔
        ∃ body j who, upstream = .response 200 body ∧ loads body = .ok j ∧
          VtfPrincipal.modelValidate j = some who ∧
          principal = ⟨who.userId.text, who.username⟩ := by
  rw [verify]
  cases hstart : auth.start hashPrefix token now with
  | missing =>
    refine ⟨.inr ⟨_, rfl, _, rfl⟩, fun _ _ => rfl, fun t ht hne hlookup => ?_⟩
    -- a token that the cache does not have is sent to vtaskforge
    have hmiss := start_eq_miss_iff.mpr ⟨ht, hne, Eq.refl (hashPrefix t), hlookup⟩
    exact nomatch hstart.symm.trans hmiss
  | hit principal =>
    refine ⟨.inl ⟨_, rfl⟩, fun _ _ => rfl, fun t ht hne hlookup => ?_⟩
    have hmiss := start_eq_miss_iff.mpr ⟨ht, hne, Eq.refl (hashPrefix t), hlookup⟩
    exact nomatch hstart.symm.trans hmiss
  | miss t key =>
    have hok : ∀ principal, (∃ who, validateToken loads upstream = .ok who ∧
        principal = who.principal) ↔
        ∃ body j who, upstream = .response 200 body ∧ loads body = .ok j ∧
          VtfPrincipal.modelValidate j = some who ∧
          principal = ⟨who.userId.text, who.username⟩ := by
      intro principal
      constructor
      · rintro ⟨who, hwho, rfl⟩
        obtain ⟨body, j, hbody, hj, hvalid⟩ := validateToken_eq_ok_iff.mp hwho
        exact ⟨body, j, who, hbody, hj, hvalid, rfl⟩
      · rintro ⟨body, j, who, hbody, hj, hvalid, rfl⟩
        exact ⟨who, validateToken_eq_ok_iff.mpr ⟨body, j, hbody, hj, hvalid⟩, rfl⟩
    simp only [← hok]
    obtain ⟨who, hwho, hresume⟩ | ⟨⟨e, he⟩, hresume⟩ :=
      auth.resume_validateToken loads key now upstream
    · rw [hresume]
      refine ⟨.inl ⟨_, rfl⟩, fun e he => (nomatch he), fun _ _ _ _ principal => ?_⟩
      simp [hwho, eq_comm]
    · rw [hresume]
      refine ⟨.inr ⟨_, rfl, _, rfl⟩, fun _ _ => rfl, fun _ _ _ _ principal => ?_⟩
      simp [he]

end VtfTokenAuth

end Vfobs
