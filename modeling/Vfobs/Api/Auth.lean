import Vfobs.Foundations.Exceptions

/-!
# Authentication of the write API

`StaticTokenAuth` compares the presented token with the configured one in constant time.
`hmac.compare_digest` is a partial function on strings: it raises a `TypeError` when either
of them has a character outside ASCII, and a header is decoded as Latin-1, so that such a
token can be presented.

`static_verify_iff`: the strategy lets the configured token in and answers every other one
with a `401` as long as no character outside ASCII reaches the comparison, and only then.
-/

namespace Vfobs

/-- Every character is an ASCII one. -/
def IsAscii (s : String) : Prop := ∀ c ∈ s.toList, c.toNat < 128

instance (s : String) : Decidable (IsAscii s) :=
  List.decidableBAll (fun c : Char => c.toNat < 128) s.toList

/-- `hmac.compare_digest` on two strings. -/
def compareDigest (a b : String) : Except PyException Bool :=
  if IsAscii a ∧ IsAscii b then .ok (a = b)
  else .error (.typeError "comparing strings with non-ASCII characters is not supported")

/-- `StaticTokenAuth`. -/
structure StaticTokenAuth where
  expected : String

namespace StaticTokenAuth

/-- `verify`: the name of the principal. -/
def verify (auth : StaticTokenAuth) : Option String → Except PyException String
  | none => .error (.http 401 "Missing bearer token")
  | some token =>
    if token = "" then .error (.http 401 "Missing bearer token")
    else do
      let same ← compareDigest token auth.expected
      if same then .ok "controller" else .error (.http 401 "Invalid bearer token")

/-- What `IngestAuth.verify` promises: a principal for the configured token, and a `401` in
every other case. -/
structure Authenticates (auth : StaticTokenAuth) (token : Option String) : Prop where
  accepts : (∃ principal, auth.verify token = .ok principal) ↔ token = some auth.expected
  denies : token ≠ some auth.expected → ∃ e, auth.verify token = .error e ∧ e.IsUnauthorized

variable {auth : StaticTokenAuth} {token : String}

/-- A comparison that is defined. -/
theorem verify_of_isAscii (hne : token ≠ "") (htoken : IsAscii token)
    (hexpected : IsAscii auth.expected) :
    auth.verify (some token) = if token = auth.expected then .ok "controller"
      else .error (.http 401 "Invalid bearer token") := by
  rw [verify, if_neg hne, compareDigest, if_pos ⟨htoken, hexpected⟩]
  by_cases h : token = auth.expected
  · simp [h, bind, Except.bind]
  · simp [h, bind, Except.bind]

/-- A comparison that raises. -/
theorem verify_of_not_isAscii (hne : token ≠ "")
    (h : ¬ (IsAscii token ∧ IsAscii auth.expected)) :
    ∃ message, auth.verify (some token) = .error (.typeError message) := by
  rw [verify, if_neg hne, compareDigest, if_neg h]
  exact ⟨_, rfl⟩

/-- A token other than the configured one, denied with a `401`. -/
theorem Authenticates.of_denied {token : Option String} {detail : String}
    (hne : token ≠ some auth.expected) (hdenied : auth.verify token = .error (.http 401 detail)) :
    auth.Authenticates token where
  accepts := by
    refine ⟨?_, fun h => absurd h hne⟩
    rintro ⟨principal, hok⟩
    exact nomatch hdenied.symm.trans hok
  denies _ := ⟨_, hdenied, _, rfl⟩

/-- A comparison that raises breaks the promise, whichever way it would have gone. -/
theorem not_authenticates_of_not_isAscii (hne : token ≠ "")
    (h : ¬ (IsAscii token ∧ IsAscii auth.expected)) : ¬ auth.Authenticates (some token) := by
  obtain ⟨message, hraises⟩ := verify_of_not_isAscii hne h
  intro hauth
  by_cases hsame : some token = some auth.expected
  · obtain ⟨principal, hok⟩ := hauth.accepts.mpr hsame
    exact nomatch hraises.symm.trans hok
  · obtain ⟨e, hdenied, detail, rfl⟩ := hauth.denies hsame
    exact nomatch hraises.symm.trans hdenied

theorem authenticates_of_isAscii (hne : token ≠ "") (htoken : IsAscii token)
    (hexpected : IsAscii auth.expected) : auth.Authenticates (some token) := by
  have hverify := verify_of_isAscii hne htoken hexpected
  by_cases hsame : token = auth.expected
  · rw [if_pos hsame] at hverify
    exact ⟨⟨fun _ => congrArg some hsame, fun _ => ⟨_, hverify⟩⟩,
      fun hne => absurd (congrArg some hsame) hne⟩
  · rw [if_neg hsame] at hverify
    exact .of_denied (fun h => hsame (Option.some.inj h)) hverify

/-- **When the promise is kept.** For every configured token that is not empty and every
presented one: it is if and only if the presented token is missing or empty, or both tokens
are ASCII. -/
theorem static_verify_iff (hexpected : auth.expected ≠ "") (token : Option String) :
    auth.Authenticates token ↔
      token = none ∨ token = some "" ∨ (∀ t ∈ token, IsAscii t) ∧ IsAscii auth.expected := by
  cases token with
  | none => exact iff_of_true (.of_denied (by simp) rfl) (.inl rfl)
  | some token =>
    by_cases hempty : token = ""
    · subst hempty
      exact iff_of_true (.of_denied (fun h => hexpected (Option.some.inj h).symm) rfl)
        (.inr (.inl rfl))
    · simp only [reduceCtorEq, Option.some.injEq, hempty, false_or, Option.mem_some_iff,
        forall_eq']
      constructor
      · intro hauth
        by_contra hascii
        exact not_authenticates_of_not_isAscii hempty hascii hauth
      · rintro ⟨htoken, hconfigured⟩
        exact authenticates_of_isAscii hempty htoken hconfigured

/-- The configured token of a deployment, presented. -/
theorem static_verify_iff_changeme :
    (⟨"changeme"⟩ : StaticTokenAuth).Authenticates (some "changeme") :=
  (static_verify_iff (by decide) _).mpr (.inr (.inr ⟨by decide, by decide⟩))

/-- A header may carry the byte `0xE9`: the comparison raises, and nobody is denied. -/
theorem static_verify_raises :
    (⟨"changeme"⟩ : StaticTokenAuth).verify (some "é") =
        .error (.typeError "comparing strings with non-ASCII characters is not supported") ∧
      ¬ (⟨"changeme"⟩ : StaticTokenAuth).Authenticates (some "é") :=
  ⟨rfl, not_authenticates_of_not_isAscii (by decide) (by decide)⟩

end StaticTokenAuth

end Vfobs
