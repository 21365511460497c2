/-!
The lines of a text as a reader sees them: every line boundary of the character standard ends a
line, a carriage return and the newline after it are one boundary, and a boundary at the very end
opens no further line.
-/

namespace Stencil.Text

/-- Characters that end a line. -/
def isLineBreak (c : Char) : Bool :=
  let n := c.toNat
  (10 ≤ n && n ≤ 13) || (28 ≤ n && n ≤ 30) || n == 0x85 || n == 0x2028 || n == 0x2029

/-- The lines of a text; `line` is the line read so far, last character first. -/
def linesFrom (line : List Char) : List Char → List (List Char)
  | [] => if line.isEmpty then [] else [line.reverse]
  | '\r' :: '\n' :: rest => line.reverse :: linesFrom [] rest
  | c :: rest =>
    if isLineBreak c then line.reverse :: linesFrom [] rest
    else linesFrom (c :: line) rest

/-- The lines of a text, without their boundaries. -/
def lines (s : List Char) : List (List Char) := linesFrom [] s

end Stencil.Text
