import Stencil.Value.Number

/-!
Filters on numbers. Division by zero is an error, also in floating point.
-/

namespace Stencil.Filter

/-- The refusal to divide by zero. -/
def byZero : Failure := .template (.badArgument "divided by 0")

/-- The quotient, rounded down when both numbers are whole. -/
def dividedBy (a b : Numeric) : Outcome Numeric :=
  if b.isZero then .error byZero else a.div b

/-- The remainder. -/
def modulo (a b : Numeric) : Outcome Numeric :=
  if b.isZero then .error byZero else a.mod b

/-- The number rounded to decimal places; without any, the result is a whole number. -/
def round (places : Int) (a : Numeric) : Outcome Numeric := do
  let rounded ← a.round places
  if places == 0 then return .int (← rounded.truncate) else return rounded

/-- The number, or a bound that is greater. -/
def atLeast (a bound : Numeric) : Numeric := if a.less bound then bound else a

/-- The number, or a bound that is less. -/
def atMost (a bound : Numeric) : Numeric := if bound.less a then bound else a

end Stencil.Filter
