import Stencil.Text.Blank
import Stencil.Text.Search

/-!
Filters on text: splitting, shortening and escaping.
-/

namespace Stencil.Filter

open Text

/-- The pieces of a text between separators. A single space stands for any run of blanks, and an
empty separator puts every character by itself. -/
def split (separator s : List Char) : List (List Char) :=
  if separator == [' '] then words s
  else if separator.isEmpty then s.map fun c => [c]
  else pieces separator s

/-- A text of at most `length` characters, a mark at the end of a shortened one included. A mark that
is too long is put in full. -/
def truncate (length : Int) (mark s : List Char) : List Char :=
  if (s.length : Int) ≤ length then s
  else s.take (length - mark.length).toNat ++ mark

/-- What a character is written as inside markup and quoted attributes. -/
def escapeChar (c : Char) : List Char :=
  match c with
  | '&' => "&amp;".toList
  | '<' => "&lt;".toList
  | '>' => "&gt;".toList
  | '"' => "&quot;".toList
  | '\'' => "&#x27;".toList
  | c => [c]

/-- A text with its markup characters escaped. -/
def escape (s : List Char) : List Char := s.flatMap escapeChar

end Stencil.Filter
