import Stencil.Number.Decimal
import Stencil.Text.Blank
import Stencil.Text.Digit

/-!
Reading and writing whole numbers, and reading floating-point numbers, as text. Whole numbers of more
than 4300 digits are refused both ways.
-/

namespace Stencil.Number

open Text

/-- The most digits a whole number may have as text. -/
def maxDigits : Nat := 4300

/-- Why a text is no whole number. -/
inductive NumeralError where
  | invalid
  | tooLong (digits : Nat)
  deriving DecidableEq

/-- Splits the longest prefix of digits, single underscores between them allowed, off a text. The
result is none when an underscore does not stand between two digits. -/
def takeDigits (afterDigit : Bool) : List Char → Option (List Nat × List Char)
  | [] => some ([], [])
  | c :: rest =>
    match digitValue? c with
    | some d => (takeDigits true rest).map fun (ds, after) => (d :: ds, after)
    | none =>
      if c == '_' then
        match rest with
        | e :: _ =>
          if afterDigit && (digitValue? e).isSome then takeDigits false rest else none
        | [] => none
      else some ([], c :: rest)

/-- The number with the given digits, most significant first. -/
def ofDigits (digits : List Nat) : Nat := digits.foldl (fun n d => 10 * n + d) 0

/-- Splits an optional sign off a text; the first component says whether it is a minus. -/
def splitSign : List Char → Bool × List Char
  | '-' :: rest => (true, rest)
  | '+' :: rest => (false, rest)
  | rest => (false, rest)

/-- Reads a whole number: blanks around, an optional sign, digits of any script. Whether the digits are too
many is found before what stands behind them. -/
def readInt (s : List Char) : Except NumeralError Int :=
  let (negative, body) := splitSign (trim s)
  match takeDigits false body with
  | none => .error .invalid
  | some (digits, rest) =>
    if maxDigits < digits.length then .error (.tooLong digits.length)
    else if digits.isEmpty || !rest.isEmpty then .error .invalid
    else .ok (Binary64.signed negative (ofDigits digits))

/-- A whole number as text, unless it has too many digits. -/
def intText? (n : Int) : Option String :=
  let digits := Nat.toDigits 10 n.natAbs
  if maxDigits < digits.length then none
  else some (String.ofList (if n < 0 then '-' :: digits else digits))

/-- The number nearest to the digits `whole.part` times `10 ^ exponent`; exponents far outside the
range of floating-point numbers are not raised to a power. -/
def binaryOfDigits (negative : Bool) (whole part : List Nat) (exponent : Int) : Binary64 :=
  let digits := (whole ++ part).dropWhile (· == 0)
  let e := exponent - part.length
  let magnitude := digits.length + e
  if digits.isEmpty then Binary64.zeroWith negative
  else if 400 < magnitude then .infinite negative
  else if magnitude < -400 then Binary64.zeroWith negative
  else if 0 ≤ e then Binary64.ofFraction negative (ofDigits digits * Nat.pow 10 e.toNat) 1
  else Binary64.ofFraction negative (ofDigits digits) (Nat.pow 10 (-e).toNat)

/-- Reads the exponent of a decimal, which must end the text. -/
def readExponent : List Char → Option Int
  | [] => some 0
  | c :: rest =>
    if c == 'e' || c == 'E' then
      let (negative, body) := splitSign rest
      match takeDigits false body with
      | some (d :: ds, []) => some (Binary64.signed negative (ofDigits (d :: ds)))
      | _ => none
    else none

/-- Reads a decimal without its sign. -/
def readDecimal (negative : Bool) (s : List Char) : Option Binary64 := do
  let (whole, rest) ← takeDigits false s
  match rest with
  | '.' :: after =>
    let (part, tail) ← takeDigits false after
    if whole.isEmpty && part.isEmpty then none
    let e ← readExponent tail
    return binaryOfDigits negative whole part e
  | _ =>
    if whole.isEmpty then none
    let e ← readExponent rest
    return binaryOfDigits negative whole [] e

/-- Whether a text is a word, in any case; the word is given in lower case. -/
def isWordNoCase (word : String) (s : List Char) : Bool :=
  s.map Char.toLower == word.toList

/-- Reads a floating-point number: blanks around, an optional sign, then a decimal with an optional
exponent, `inf`, `infinity` or `nan`. A not-a-number gets the given mark. -/
def readBinary (mark : Nat) (s : List Char) : Option Binary64 :=
  let (negative, body) := splitSign (trim s)
  if isWordNoCase "inf" body || isWordNoCase "infinity" body then some (.infinite negative)
  else if isWordNoCase "nan" body then some (.nan mark)
  else readDecimal negative body

end Stencil.Number
