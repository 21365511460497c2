/-!
Finding a pattern in a text: cutting at every occurrence, replacing, and joining again. Occurrences
are counted from the left and do not overlap.
-/

namespace Stencil.Text

/-- What follows a prefix of the text, if the text starts with it. -/
def dropPrefix? : List Char → List Char → Option (List Char)
  | [], s => some s
  | _ :: _, [] => none
  | p :: ps, c :: cs => if p == c then dropPrefix? ps cs else none

/-- The text before and after the first occurrence of a pattern. -/
def cut (pattern : List Char) : List Char → Option (List Char × List Char)
  | [] => if pattern.isEmpty then some ([], []) else none
  | c :: cs =>
    match dropPrefix? pattern (c :: cs) with
    | some rest => some ([], rest)
    | none => (cut pattern cs).map fun (before, after) => (c :: before, after)

/-- Whether a pattern occurs in a text. -/
def occursIn (pattern s : List Char) : Bool := (cut pattern s).isSome

/-- The pieces between the occurrences of a pattern. `skip` counts the characters of an occurrence
that are still to be passed, and `piece` holds the current piece, last character first. -/
def piecesFrom (pattern : List Char) (skip : Nat) (piece : List Char) :
    List Char → List (List Char)
  | [] => [piece.reverse]
  | c :: cs =>
    match skip with
    | skip + 1 => piecesFrom pattern skip piece cs
    | 0 =>
      if (dropPrefix? pattern (c :: cs)).isSome then
        piece.reverse :: piecesFrom pattern (pattern.length - 1) [] cs
      else piecesFrom pattern 0 (c :: piece) cs

/-- The pieces of a text between the occurrences of a pattern that is not empty. -/
def pieces (pattern s : List Char) : List (List Char) := piecesFrom pattern 0 [] s

/-- The parts with a separator between neighbours. -/
def joined (separator : List Char) : List (List Char) → List Char
  | [] => []
  | [part] => part
  | part :: rest => part ++ separator ++ joined separator rest

/-- Puts a text in front of every character and at the end. -/
def interleave (insert : List Char) : List Char → List Char
  | [] => insert
  | c :: cs => insert ++ c :: interleave insert cs

/-- Replaces every occurrence of a pattern; the empty pattern occurs at every position. -/
def replaceAll (pattern replacement s : List Char) : List Char :=
  if pattern.isEmpty then interleave replacement s
  else joined replacement (pieces pattern s)

end Stencil.Text
