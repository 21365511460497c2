import Stencil.Text.CharSet
import Stencil.Text.Table.DecimalZero
import Stencil.Text.Table.DigitLike

/-!
Decimal digits of every script, and the wider class of characters with a digit value.
-/

namespace Stencil.Text

/-- The value of a decimal digit, in any script. -/
def digitValue? (c : Char) : Option Nat :=
  let n := c.toNat
  if n < 128 then if c.isDigit then some (n - 48) else none
  else (decimalZeros.find? fun start => start ≤ n && n < start + 10).map (n - ·)

/-- Whether a character is a decimal digit. -/
def isDecimal (c : Char) : Bool := (digitValue? c).isSome

/-- Whether a character has a digit value; superscripts and circled digits do, and are no decimal
digits. -/
def isDigitLike (c : Char) : Bool :=
  if c.toNat < 128 then c.isDigit else digitLikeAboveAscii.contains c.toNat

end Stencil.Text
