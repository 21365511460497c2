import Stencil.Diagnostic.Style
import Stencil.Text.Lines

/-!
Source snippets: the lines around an error, numbered in a gutter, the offending one marked.
-/

namespace Stencil

open Style

/-- The empty gutter line that frames a snippet. -/
def gutterRule (colour : Bool) : String := style colour .source "   |"

/-- A line number right-aligned in the gutter. -/
def gutterNumber (line : Int) : String :=
  let digits := toString line
  String.ofList (List.replicate (3 - digits.length) ' ') ++ digits

/-- One line of a snippet. -/
def gutterLine (colour : Bool) (line : Int) (content : String) (offending : Bool) : String :=
  let number := style colour .gutter ((if offending then ">" else " ") ++ gutterNumber line)
  number ++ " | " ++ style colour (if offending then .offending else .source) content

/-- Numbered lines of a source around an error line. -/
structure Snippet where
  lines : List (Int × String)
  errorLine : Int

namespace Snippet

/-- The lines of a source at most `around` lines away from the error line. -/
def build (source : String) (errorLine : Int) (around : Int) : Snippet :=
  let all := Text.lines source.toList
  let start := max 0 (errorLine - 1 - around)
  let stop := min (all.length : Int) (errorLine + around)
  let chosen := (all.drop start.toNat).take (stop - start).toNat
  ⟨chosen.zipIdx.map fun (line, i) => (start + i + 1, String.ofList line), errorLine⟩

/-- The snippet as text. -/
def text (colour : Bool) (snippet : Snippet) : String :=
  let rows := snippet.lines.map fun (line, content) =>
    gutterLine colour line content (line == snippet.errorLine)
  "\n".intercalate (gutterRule colour :: rows ++ [gutterRule colour])

end Snippet

end Stencil
