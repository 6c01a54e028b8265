import Mathlib.Tactic.Common

/-!
# Exceptions

The exceptions that the service raises or lets through, as the `error` side of `Except`. A
`try: … except Exception as e: raise X` is `Except.mapError`; exceptions that are no
`Exception`, such as a cancellation, end the request and are not modelled.
-/

namespace Vfobs

/-- An exception. -/
inductive PyException
  /-- `HTTPException`: the response with this status. -/
  | http (status : ℕ) (detail : String)
  /-- `VtfAuthError`. -/
  | vtfAuth (message : String)
  /-- `TypeError`. -/
  | typeError (message : String)
  /-- An exception of any other class. -/
  | other (cls message : String)
  deriving DecidableEq

namespace PyException

/-- `str(e)`. -/
def message : PyException → String
  | http _ detail => detail
  | vtfAuth message => message
  | typeError message => message
  | other _ message => message

/-- The denial of a request: a `401`. -/
def IsUnauthorized (e : PyException) : Prop := ∃ detail, e = http 401 detail

end PyException

end Vfobs
