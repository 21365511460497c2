import Stencil.Number.Binary64

/-!
Decimal text of floating-point numbers: the fewest digits that read back as the same number, and
among those the nearest to it.
-/

namespace Stencil.Binary64

/-- A positive decimal `digits * 10 ^ exponent`. -/
structure Decimal where
  digits : Nat
  exponent : Int
  deriving DecidableEq, Inhabited

namespace Decimal

/-- The floating-point number nearest to the decimal. -/
def toBinary (d : Decimal) : Binary64 :=
  if 0 ≤ d.exponent then ofFraction false (d.digits * Nat.pow 10 d.exponent.toNat) 1
  else ofFraction false d.digits (Nat.pow 10 (-d.exponent).toNat)

end Decimal

/-- The fraction `num / den` divided by `10 ^ e`, as a fraction. -/
def scaleDecimal (num den : Nat) (e : Int) : Nat × Nat :=
  if 0 ≤ e then (num, den * Nat.pow 10 e.toNat) else (num * Nat.pow 10 (-e).toNat, den)

/-- The greatest `k` below `bound` with `10 ^ k ≤ n`, counting up from `k`. -/
def decimalLog (n : Nat) : Nat → Nat → Nat
  | 0, k => k
  | fuel + 1, k => if Nat.pow 10 (k + 1) ≤ n then decimalLog n fuel (k + 1) else k

/-- The exponent of the first decimal digit of a positive fraction. -/
def leadingExponent (num den : Nat) : Int :=
  if den ≤ num then decimalLog (num / den) 400 0
  else
    let k : Nat := decimalLog (den / num) 400 0
    if den == num * Nat.pow 10 k then -(k : Int) else -(k + 1 : Int)

/-- The neighbours of a fraction among the decimals with the given exponent, nearer one first; of
two equally near the even one comes first. -/
def neighbours (num den : Nat) (e : Int) : List Decimal :=
  let (n, d) := scaleDecimal num den e
  let low := n / d
  let first := roundQuotient n d
  let second := if first == low then low + 1 else low
  [⟨first, e⟩, ⟨second, e⟩]

/-- The first decimal that reads back as `x` over `count` grids, from the coarsest on. -/
def searchShortest (x : Binary64) (num den : Nat) : Nat → Int → Decimal
  | 0, e => ⟨roundQuotient (scaleDecimal num den e).1 (scaleDecimal num den e).2, e⟩
  | count + 1, e =>
    match (neighbours num den e).find? fun d => d.digits != 0 && d.toBinary == x with
    | some d => d
    | none => searchShortest x num den count (e - 1)

/-- The decimal with the fewest digits that reads back as the positive number `m * 2 ^ e`. -/
def shortest (m : Nat) (e : Int) : Decimal :=
  let num := if 0 ≤ e then m * Nat.pow 2 e.toNat else m
  let den := if 0 ≤ e then 1 else Nat.pow 2 (-e).toNat
  searchShortest (ofFraction false num den) num den 17 (leadingExponent num den)

/-- Drops zeros at the end of a list of digits given last digit first. -/
def dropTrailingZeros (digits : List Char) : List Char :=
  (digits.reverse.dropWhile (· == '0')).reverse

/-- An exponent with its sign and at least two digits. -/
def exponentText (e : Int) : List Char :=
  let digits := Nat.toDigits 10 e.natAbs
  (if e < 0 then '-' else '+') :: (if digits.length < 2 then '0' :: digits else digits)

/-- A positive decimal as text: positional while the first digit stands between `10 ^ (-4)` and
`10 ^ 15`, with at least one place after the point, and with an exponent otherwise. -/
def decimalText (d : Decimal) : List Char :=
  let all := Nat.toDigits 10 d.digits
  let point : Int := all.length + d.exponent
  let digits := dropTrailingZeros all
  let count : Int := digits.length
  if -4 < point && point ≤ 16 then
    if point ≤ 0 then '0' :: '.' :: List.replicate (-point).toNat '0' ++ digits
    else if count ≤ point then digits ++ List.replicate (point - count).toNat '0' ++ ['.', '0']
    else digits.take point.toNat ++ '.' :: digits.drop point.toNat
  else
    match digits with
    | [] => ['0']
    | first :: [] => first :: 'e' :: exponentText (point - 1)
    | first :: rest => first :: '.' :: rest ++ 'e' :: exponentText (point - 1)

/-- A floating-point number as text. -/
def text : Binary64 → String
  | .nan _ => "nan"
  | .infinite false => "inf"
  | .infinite true => "-inf"
  | .finite s m e =>
    let body := if m == 0 then ['0', '.', '0'] else decimalText (shortest m e)
    String.ofList (if s then '-' :: body else body)

end Stencil.Binary64
