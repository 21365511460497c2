/-!
Blank characters and the operations that drop them. Blanks are the characters with a white-space
bidirectional class or a space-separator category, controls `\x1c` to `\x1f` included.
-/

namespace Stencil.Text

/-- Whether a character separates words. -/
def isBlank (c : Char) : Bool :=
  let n := c.toNat
  if n < 128 then (9 ≤ n && n ≤ 13) || (28 ≤ n && n ≤ 32)
  else n == 0x85 || n == 0xa0 || n == 0x1680 || (0x2000 ≤ n && n ≤ 0x200a) || n == 0x2028 ||
    n == 0x2029 || n == 0x202f || n == 0x205f || n == 0x3000

/-- Drops the blanks in front. -/
def trimLeft (s : List Char) : List Char := s.dropWhile isBlank

/-- Drops the blanks at the end. -/
def trimRight : List Char → List Char
  | [] => []
  | c :: rest =>
    match trimRight rest with
    | [] => if isBlank c then [] else [c]
    | kept => c :: kept

/-- Drops the blanks at both ends. -/
def trim (s : List Char) : List Char := trimRight (trimLeft s)

/-- Whether every character is a blank. -/
def isAllBlank (s : List Char) : Bool := s.all isBlank

/-- The text without blanks in front. -/
def trimLeftText (s : String) : String := String.ofList (trimLeft s.toList)

/-- The text without blanks at the end. -/
def trimRightText (s : String) : String := String.ofList (trimRight s.toList)

/-- The text without blanks at its ends. -/
def trimText (s : String) : String := String.ofList (trim s.toList)

/-- The maximal runs of characters that are not blank. -/
def words (s : List Char) : List (List Char) :=
  (s.splitOnP isBlank).filter (! ·.isEmpty)

end Stencil.Text
