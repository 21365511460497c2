import Stencil.Diagnostic.Failure
import Stencil.Markup.Lexeme

/-!
Complaints: everything that can be wrong with the text of a template, and how it is worded.
-/

namespace Stencil

/-- What is wrong with a template. -/
inductive Complaint where
  /-- A character that starts no lexeme. -/
  | unexpectedCharacter (c : Char)
  /-- A lexeme of another kind was wanted. -/
  | expected (wanted found : Lexeme.Kind)
  /-- A lexeme that starts no expression. -/
  | notAnExpression (found : Lexeme)
  /-- A tag without its closer. -/
  | unclosedTag (text : String)
  /-- An output without its closer. -/
  | unclosedOutput (text : String)
  /-- A block without its end. -/
  | neverClosed (block : String)
  /-- An alternative in a block that takes none. -/
  | strayElse (block : String)
  /-- The end of another block. -/
  | strayEnd (tag block : String)
  /-- A tag nobody knows. -/
  | unknownTag (tag : String)
  /-- A part or end of a block outside any block. -/
  | outerTag (tag : String)
  /-- A condition that cannot be read. -/
  | condition (tag : String)
  /-- A case without a subject. -/
  | caseSubject
  /-- An alternative of a case that cannot be read. -/
  | caseAlternative
  /-- A last alternative of a case with markup. -/
  | caseElse
  /-- A loop header that cannot be read. -/
  | loopHeader
  /-- A loop header without its collection. -/
  | loopWithoutIn
  /-- A loop header with an attribute it does not take. -/
  | loopAttribute
  /-- A table header that cannot be read. -/
  | tableHeader
  /-- A verbatim section with markup. -/
  | rawMarkup
  /-- An assignment that cannot be read. -/
  | assignment
  /-- A capture without a name. -/
  | captureTarget
  /-- A cycle without values. -/
  | cycleValues
  /-- A repetition without a count. -/
  | repeatCount
  deriving DecidableEq

namespace Complaint

/-- The name of the tag that closes a block. -/
def delimiter (block : String) : String := "end" ++ block

/-- The wording of a complaint. -/
def message : Complaint → String
  | .unexpectedCharacter c => "Unexpected character " ++ String.singleton c
  | .expected wanted found => "Expected " ++ wanted.name ++ " but found " ++ found.name
  | .notAnExpression found => found.shown ++ " is not a valid expression"
  | .unclosedTag text =>
    "Tag '" ++ text ++ "' was not properly terminated with regexp: %\x7d"
  | .unclosedOutput text =>
    "Variable '" ++ text ++ "' was not properly terminated with regexp: \x7d\x7d"
  | .neverClosed block => "'" ++ block ++ "' tag was never closed"
  | .strayElse block => block ++ " tag does not expect 'else' tag"
  | .strayEnd tag block =>
    "'" ++ tag ++ "' is not a valid delimiter for " ++ block ++ " tags. use " ++ delimiter block
  | .unknownTag tag => "Unknown tag '" ++ tag ++ "'"
  | .outerTag tag => "Unexpected outer '" ++ tag ++ "' tag"
  | .condition tag =>
    "Syntax Error in tag '" ++ tag ++ "' - Valid syntax: " ++ tag ++ " [expression]"
  | .caseSubject => "Syntax Error in 'case' - Valid syntax: case [condition]"
  | .caseAlternative => "Syntax Error in tag 'case' - Valid when condition: " ++
      "\x7b% when [condition] [or condition2...] %\x7d"
  | .caseElse => "Syntax Error in tag 'case' - Valid else condition: " ++
      "\x7b% else %\x7d (no parameters) "
  | .loopHeader => "Syntax Error in 'for loop' - Valid syntax: for [item] in [collection]"
  | .loopWithoutIn => "For loops require an 'in' clause"
  | .loopAttribute => "Invalid attribute in for loop. Valid attributes are limit and offset"
  | .tableHeader => "Syntax Error in 'table_row loop' - Valid syntax: " ++
      "table_row [item] in [collection] cols=3"
  | .rawMarkup => "Syntax Error in 'raw' tag - Valid syntax: raw"
  | .assignment => "Syntax Error in 'assign' - Valid syntax: assign [var] = [source]"
  | .captureTarget => "Syntax Error in 'capture' - Valid syntax: capture [var]"
  | .cycleValues => "Syntax Error in 'cycle' - Valid syntax: cycle [name :] var [, var2, var3 ...]"
  | .repeatCount => "Syntax Error in 'repeat' - Valid syntax: repeat [n]"

/-- The code of a complaint. -/
def code : Complaint → ErrorCode
  | .unexpectedCharacter _ => .unexpectedCharacter
  | .unclosedTag _ => .unclosedTag
  | .unclosedOutput _ => .unclosedOutput
  | .neverClosed _ => .unclosedBlock
  | .unknownTag _ => .unknownTag
  | .strayElse _ | .strayEnd _ _ | .outerTag _ => .unexpectedTag
  | _ => .malformed

/-- The error that tells a complaint. -/
def toError (c : Complaint) : TemplateError :=
  { kind := .malformed, message := c.message, code := some c.code }

/-- The failure that tells a complaint. -/
def toFailure (c : Complaint) : Failure := .template c.toError

end Complaint

/-- Fails with a complaint. -/
def complain {α : Type} (c : Complaint) : Outcome α := .error c.toFailure

end Stencil
