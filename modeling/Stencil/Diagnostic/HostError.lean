/-!
Errors of the host: what the values and functions that a template is given refuse to do.
-/

namespace Stencil

/-- Why the host refuses an operation. -/
inductive HostCause where
  | badType | badValue | missingKey | overflow | failed | missingAttribute | outOfRange
  deriving DecidableEq

/-- An error of the host, with its own wording. -/
structure HostError where
  cause : HostCause
  text : String := ""
  deriving DecidableEq

end Stencil
