import Stencil.Text.CharSet
import Stencil.Text.Table.CaseIgnorable
import Stencil.Text.Table.Cased
import Stencil.Text.Table.Lower
import Stencil.Text.Table.Title
import Stencil.Text.Table.Upper

/-!
Upper, lower and title case, with mappings to several characters and the final sigma.
-/

namespace Stencil.Text

/-- The mapping of a character above ASCII by a table of rows and expansions. -/
def mapCase (runs : Array CaseRun) (expansions : Array (Nat × List Nat)) (c : Char) : List Char :=
  let n := c.toNat
  match runs.find? (·.covers n) with
  | some run => [Char.ofNat (run.map n)]
  | none =>
    match expansions.find? (·.1 == n) with
    | some (_, image) => image.map Char.ofNat
    | none => [c]

/-- The upper-case form of a character. -/
def upperChar (c : Char) : List Char :=
  if c.toNat < 128 then [c.toUpper] else mapCase upperRuns upperExpansions c

/-- The lower-case form of a character that stands alone. -/
def lowerChar (c : Char) : List Char :=
  if c.toNat < 128 then [c.toLower] else mapCase lowerRuns lowerExpansions c

/-- The title-case form of a character. -/
def titleChar (c : Char) : List Char :=
  if c.toNat < 128 then [c.toUpper] else mapCase titleRuns titleExpansions c

/-- Characters with case that decide whether a sigma is final. -/
def isCased (c : Char) : Bool :=
  if c.toNat < 128 then c.isAlpha else casedAboveAscii.contains c.toNat

/-- Characters that are passed over on either side of a sigma. -/
def isCaseIgnorable (c : Char) : Bool :=
  if c.toNat < 128 then c == '\'' || c == '.' || c == ':' || c == '^' || c.toNat == 96
  else caseIgnorableAboveAscii.contains c.toNat

/-- Whether the first character that is not passed over has case. -/
def facesCased (s : List Char) : Bool :=
  ((s.dropWhile isCaseIgnorable).head?.map isCased).getD false

/-- Lower case from left to right; `before` holds the characters already read, nearest first. -/
def lowerAfter (before : List Char) : List Char → List Char
  | [] => []
  | c :: rest =>
    let image :=
      if c.toNat == 0x3a3 then
        if facesCased before && !facesCased rest then [Char.ofNat 0x3c2] else [Char.ofNat 0x3c3]
      else lowerChar c
    image ++ lowerAfter (c :: before) rest

/-- Upper case of a text. -/
def upper (s : List Char) : List Char := s.flatMap upperChar

/-- Lower case of a text; a capital sigma at the end of a word becomes a final sigma. -/
def lower (s : List Char) : List Char := lowerAfter [] s

/-- Title case of the first character and lower case of the others. -/
def capitalize : List Char → List Char
  | [] => []
  | c :: rest => titleChar c ++ lowerAfter [c] rest

end Stencil.Text
