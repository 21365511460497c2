/-!
Binary floating-point numbers with 53 significant bits, as exact data: a finite number is a sign, an
integer and a power of two. Every operation is computed exactly and then rounded once, to the
nearest number, ties to the even one.
-/

namespace Stencil

/-- A floating-point number. A finite number stands for `mantissa * 2 ^ exponent`, negated when
`negative`; a not-a-number carries the mark of the object it came with, `0` when it has none. -/
inductive Binary64 where
  | nan (mark : Nat)
  | infinite (negative : Bool)
  | finite (negative : Bool) (mantissa : Nat) (exponent : Int)
  deriving DecidableEq, Inhabited

namespace Binary64

/-- Number of significant bits. -/
def precision : Nat := 53

/-- Exponent of the smallest positive number. -/
def minExponent : Int := -1074

/-- Greatest exponent of a finite number with a full mantissa. -/
def maxExponent : Int := 971

/-- A zero of either sign. -/
def zeroWith (negative : Bool) : Binary64 := .finite negative 0 minExponent

/-- The quotient of two naturals rounded to the nearest one, ties to even. -/
def roundQuotient (num den : Nat) : Nat :=
  let q := num / den
  let r := num % den
  if 2 * r < den then q
  else if 2 * r > den then q + 1
  else if q % 2 == 0 then q else q + 1

/-- The fraction `num / den` divided by `2 ^ e`, as a fraction. -/
def scaleDown (num den : Nat) (e : Int) : Nat × Nat :=
  if 0 ≤ e then (num, den * Nat.pow 2 e.toNat) else (num * Nat.pow 2 (-e).toNat, den)

/-- The greatest `e` with `2 ^ (precision - 1) ≤ (num / den) / 2 ^ e`, for a positive fraction. -/
def naturalExponent (num den : Nat) : Int :=
  let guess : Int := (num.log2 : Int) - (den.log2 : Int) - (precision - 1 : Nat)
  let (n, d) := scaleDown num den guess
  if n / d < Nat.pow 2 (precision - 1) then guess - 1 else guess

/-- The number nearest to `num / den`, ties to even, with the given sign. -/
def ofFraction (negative : Bool) (num den : Nat) : Binary64 :=
  if num == 0 then zeroWith negative
  else
    let e := max (naturalExponent num den) minExponent
    let (n, d) := scaleDown num den e
    let m := roundQuotient n d
    if m == Nat.pow 2 precision then
      if maxExponent ≤ e then .infinite negative
      else .finite negative (Nat.pow 2 (precision - 1)) (e + 1)
    else if maxExponent < e then .infinite negative
    else .finite negative m e

/-- The number nearest to `m * 2 ^ e`. -/
def ofScaled (negative : Bool) (m : Nat) (e : Int) : Binary64 :=
  if 0 ≤ e then ofFraction negative (m * Nat.pow 2 e.toNat) 1
  else ofFraction negative m (Nat.pow 2 (-e).toNat)

/-- The number nearest to an integer. -/
def ofInt (n : Int) : Binary64 := ofFraction (n < 0) n.natAbs 1

/-- The signed integer `± mantissa`. -/
def signed (negative : Bool) (m : Nat) : Int := if negative then -(m : Int) else m

/-- The number nearest to `n * 2 ^ e`; `zeroSign` is the sign of a zero result. -/
def ofSigned (zeroSign : Bool) (n e : Int) : Binary64 :=
  if n == 0 then zeroWith zeroSign else ofScaled (n < 0) n.natAbs e

/-- Whether a number is not a number. -/
def isNaN : Binary64 → Bool
  | .nan _ => true
  | _ => false

/-- Whether a number is a zero. -/
def isZero : Binary64 → Bool
  | .finite _ m _ => m == 0
  | _ => false

/-- The number with the other sign. -/
def neg : Binary64 → Binary64
  | .nan mark => .nan mark
  | .infinite s => .infinite !s
  | .finite s m e => .finite (!s) m e

/-- The number without its sign. -/
def abs : Binary64 → Binary64
  | .nan _ => .nan 0
  | .infinite _ => .infinite false
  | .finite _ m e => .finite false m e

/-- The sum. Opposite infinities have none; an exact zero is negative only when both are. -/
def add : Binary64 → Binary64 → Binary64
  | .nan _, _ | _, .nan _ => .nan 0
  | .infinite s, .infinite t => if s == t then .infinite s else .nan 0
  | .infinite s, _ => .infinite s
  | _, .infinite t => .infinite t
  | .finite s m e, .finite t n f =>
    let low := min e f
    let total := signed s (m * Nat.pow 2 (e - low).toNat) + signed t (n * Nat.pow 2 (f - low).toNat)
    ofSigned (s && t) total low

/-- The difference. -/
def sub (x y : Binary64) : Binary64 := add x (neg y)

/-- The product. -/
def mul : Binary64 → Binary64 → Binary64
  | .nan _, _ | _, .nan _ => .nan 0
  | .infinite s, .infinite t => .infinite (s != t)
  | .infinite s, .finite t n _ => if n == 0 then .nan 0 else .infinite (s != t)
  | .finite s m _, .infinite t => if m == 0 then .nan 0 else .infinite (s != t)
  | .finite s m e, .finite t n f => ofScaled (s != t) (m * n) (e + f)

/-- The quotient by a number that is not zero. -/
def div : Binary64 → Binary64 → Binary64
  | .nan _, _ | _, .nan _ => .nan 0
  | .infinite _, .infinite _ => .nan 0
  | .infinite s, .finite t _ _ => .infinite (s != t)
  | .finite s _ _, .infinite t => zeroWith (s != t)
  | .finite s m e, .finite t n f =>
    if 0 ≤ e - f then ofFraction (s != t) (m * Nat.pow 2 (e - f).toNat) n
    else ofFraction (s != t) m (n * Nat.pow 2 (f - e).toNat)

/-- The remainder of the quotient rounded down: it has the sign of the divisor. -/
def mod : Binary64 → Binary64 → Binary64
  | .nan _, _ | _, .nan _ => .nan 0
  | .infinite _, _ => .nan 0
  | .finite s m e, .infinite t =>
    if m == 0 then zeroWith t else if s == t then .finite s m e else .infinite t
  | .finite s m e, .finite t n f =>
    let low := min e f
    let a := m * Nat.pow 2 (e - low).toNat
    let b := n * Nat.pow 2 (f - low).toNat
    let r := a % b
    if r == 0 then zeroWith t
    else if s == t then ofScaled s r low
    else add (ofScaled s r low) (.finite t n f)

/-- The integer part, for a finite number. -/
def truncate (negative : Bool) (m : Nat) (e : Int) : Int :=
  signed negative (if 0 ≤ e then m * Nat.pow 2 e.toNat else m / Nat.pow 2 (-e).toNat)

/-- How a number compares with another: nothing is comparable with a not-a-number. -/
def compare? : Binary64 → Binary64 → Option Ordering
  | .nan _, _ | _, .nan _ => none
  | .infinite s, .infinite t => some (if s == t then .eq else if s then .lt else .gt)
  | .infinite s, _ => some (if s then .lt else .gt)
  | _, .infinite t => some (if t then .gt else .lt)
  | .finite s m e, .finite t n f =>
    let low := min e f
    some (compare (signed s (m * Nat.pow 2 (e - low).toNat))
      (signed t (n * Nat.pow 2 (f - low).toNat)))

/-- An integer as an exact number of unbounded size, for comparison. -/
def exactly (n : Int) : Binary64 := .finite (n < 0) n.natAbs 0

/-- The number rounded to a multiple of `10 ^ (-digits)`, ties to even; `none` when the rounded
value is too large. -/
def roundDecimal? (x : Binary64) (digits : Int) : Option Binary64 :=
  match x with
  | .finite s m e =>
    if 323 < digits then some x
    else if digits < -308 then some (zeroWith s)
    else
      let num := if 0 ≤ e then m * Nat.pow 2 e.toNat else m
      let den := if 0 ≤ e then 1 else Nat.pow 2 (-e).toNat
      let rounded :=
        if 0 ≤ digits then
          ofFraction s (roundQuotient (num * Nat.pow 10 digits.toNat) den) (Nat.pow 10 digits.toNat)
        else
          let unit := Nat.pow 10 (-digits).toNat
          ofFraction s (roundQuotient num (den * unit) * unit) 1
      match rounded with
      | .infinite _ => none
      | y => some y
  | _ => some x

end Binary64

end Stencil
