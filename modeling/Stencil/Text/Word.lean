import Stencil.Text.CharSet
import Stencil.Text.Table.Word

/-!
Characters of words, and names: what markup may use in an identifier.
-/

namespace Stencil.Text

/-- Letters, characters with a numeric value, and the underscore. -/
def isWordChar (c : Char) : Bool :=
  let n := c.toNat
  if n < 128 then c.isAlphanum || c == '_' else wordAboveAscii.contains n

/-- Word characters and the hyphen: what a variable name is made of. -/
def isNameChar (c : Char) : Bool := isWordChar c || c == '-'

/-- What a strict identifier starts with: an ASCII letter or an underscore. -/
def isIdentifierStart (c : Char) : Bool := c.isAlpha || c == '_'

end Stencil.Text
