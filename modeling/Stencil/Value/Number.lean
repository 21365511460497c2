import Stencil.Number.Reading
import Stencil.Value.Basic

/-!
The numbers among the values, and their arithmetic. Whole numbers are unbounded; an operation on a
whole number and a floating-point number is done in floating point.
-/

namespace Stencil

/-- A whole number or a floating-point number. -/
inductive Numeric where
  | int (n : Int)
  | float (x : Binary64)
  deriving DecidableEq

namespace Numeric

/-- The number as a value. -/
def toValue : Numeric → Value
  | .int n => .int n
  | .float x => .float x

/-- How two numbers compare, exactly; a not-a-number compares with nothing. -/
def compare? : Numeric → Numeric → Option Ordering
  | .int m, .int n => some (compare m n)
  | .int m, .float y => (Binary64.exactly m).compare? y
  | .float x, .int n => x.compare? (Binary64.exactly n)
  | .float x, .float y => x.compare? y

/-- Whether two numbers are equal. -/
def same (a b : Numeric) : Bool := compare? a b == some .eq

/-- Whether the first number is less. -/
def less (a b : Numeric) : Bool := compare? a b == some .lt

/-- Whether a number equals zero. -/
def isZero : Numeric → Bool
  | .int n => n == 0
  | .float x => x.isZero

/-- The floating-point number nearest to a whole number, unless that is too large. -/
def floatOfInt (n : Int) : Outcome Binary64 :=
  match Binary64.ofInt n with
  | .infinite _ => .error .integerTooLarge
  | x => .ok x

/-- The number in floating point. -/
def toFloat : Numeric → Outcome Binary64
  | .int n => floatOfInt n
  | .float x => .ok x

/-- An operation with one rule for whole numbers and one for floating point. -/
def combine (onInts : Int → Int → Int) (onFloats : Binary64 → Binary64 → Binary64) :
    Numeric → Numeric → Outcome Numeric
  | .int m, .int n => .ok (.int (onInts m n))
  | a, b => do
    let x ← a.toFloat
    let y ← b.toFloat
    return .float (onFloats x y)

/-- The sum. -/
def add : Numeric → Numeric → Outcome Numeric := combine (· + ·) Binary64.add

/-- The difference. -/
def sub : Numeric → Numeric → Outcome Numeric := combine (· - ·) Binary64.sub

/-- The product. -/
def mul : Numeric → Numeric → Outcome Numeric := combine (· * ·) Binary64.mul

/-- The quotient by a number that is not zero; of whole numbers, rounded down. -/
def div : Numeric → Numeric → Outcome Numeric := combine Int.fdiv Binary64.div

/-- The remainder of the quotient rounded down. -/
def mod : Numeric → Numeric → Outcome Numeric := combine Int.fmod Binary64.mod

/-- The number without its sign. -/
def abs : Numeric → Numeric
  | .int n => .int n.natAbs
  | .float x => .float x.abs

/-- A natural number rounded to a multiple of `10 ^ places`, ties to even. -/
def roundNat (n places : Nat) : Nat :=
  if (Nat.toDigits 10 n).length < places then 0
  else Binary64.roundQuotient n (Nat.pow 10 places) * Nat.pow 10 places

/-- The number rounded to a count of decimal places, ties to even. -/
def round (a : Numeric) (places : Int) : Outcome Numeric :=
  match a with
  | .int n =>
    if 0 ≤ places then .ok (.int n)
    else .ok (.int (Binary64.signed (n < 0) (roundNat n.natAbs (-places).toNat)))
  | .float x =>
    match x.roundDecimal? places with
    | some y => .ok (.float y)
    | none => .error (.overflow "rounded value too large to represent")

/-- The integer part of a floating-point number. -/
def truncateFloat : Binary64 → Outcome Int
  | .nan _ => .error .nanToInteger
  | .infinite _ => .error .infinityToInteger
  | .finite s m e => .ok (Binary64.truncate s m e)

/-- The integer part. -/
def truncate : Numeric → Outcome Int
  | .int n => .ok n
  | .float x => truncateFloat x

end Numeric

namespace Value

/-- The number a value stands for in comparisons; true counts as one and false as zero. -/
def numeric? : Value → Option Numeric
  | .bool b => some (.int (if b then 1 else 0))
  | .int n => some (.int n)
  | .float x => some (.float x)
  | _ => none

/-- Whether two values are the same not-a-number object. -/
def sameMark : Value → Value → Bool
  | .float (.nan a), .float (.nan b) => a != 0 && a == b
  | _, _ => false

end Value

end Stencil
