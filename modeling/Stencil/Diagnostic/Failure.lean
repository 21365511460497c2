import Stencil.Diagnostic.TemplateError

/-!
Failures: what ends a computation without a result. Errors of templates are reported to the author
of a template; errors of the host come from the values and functions a template is given.
-/

namespace Stencil

/-- What ends a computation without a result. -/
inductive Failure where
  | template (e : TemplateError)
  | host (e : HostError)
  deriving DecidableEq

namespace Failure

/-- An operation on a value of the wrong type. -/
def badType (text : String) : Failure := .host ⟨.badType, text⟩

/-- An operation on a value outside its domain. -/
def badValue (text : String) : Failure := .host ⟨.badValue, text⟩

/-- A number outside the range it has to be in. -/
def overflow (text : String) : Failure := .host ⟨.overflow, text⟩

/-- A key that cannot be kept in a mapping. -/
def unhashable (typeName : String) : Failure := .badType ("unhashable type: '" ++ typeName ++ "'")

/-- A not-a-number where a whole number is needed. -/
def nanToInteger : Failure := .badValue "cannot convert float NaN to integer"

/-- An infinity where a whole number is needed. -/
def infinityToInteger : Failure := .overflow "an infinity has no whole number"

/-- A whole number too large for a floating-point number. -/
def integerTooLarge : Failure := .overflow "a whole number above all floating-point numbers"

/-- A range with more numbers than can be counted. -/
def tooManyItems : Failure := .overflow "a range with too many numbers"

/-- A whole number with too many digits to be written. -/
def tooManyDigits : Failure :=
  .badValue ("Exceeds the limit (4300 digits) for integer string conversion; " ++
    "use sys.set_int_max_str_digits() to increase the limit")

/-- A whole number with too many digits to be read. -/
def tooManyDigitsRead (digits : Nat) : Failure :=
  .badValue ("Exceeds the limit (4300 digits) for integer string conversion: value has " ++
    toString digits ++ " digits; use sys.set_int_max_str_digits() to increase the limit")

/-- The error recorded when a failure is met inside a render. One of the host is recorded as an
internal error, which keeps it. -/
def recorded : Failure → TemplateError
  | .template e => { e with insteadOf := none }
  | .host h => { TemplateError.internal with insteadOf := some h }

/-- Whether a failure ends the whole render. -/
def isFatal : Failure → Bool
  | .template e => e.kind == .memory
  | .host _ => false

end Failure

/-- A computation that may fail. -/
abbrev Outcome (α : Type) := Except Failure α

end Stencil
