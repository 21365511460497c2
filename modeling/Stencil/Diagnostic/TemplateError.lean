import Stencil.Diagnostic.HostError
import Stencil.Diagnostic.Snippet
import Stencil.Text.Likeness

/-!
Errors of templates: what went wrong, where, and how it is told in one line and in a diagnostic of
several lines.
-/

namespace Stencil

/-- Searchable codes of errors. -/
inductive ErrorCode where
  | unexpectedCharacter | unclosedTag | unclosedOutput
  | malformed | unclosedBlock | unknownTag | unexpectedTag | nestingTooDeep
  | undefinedVariable | undefinedMethod | undefinedFilter | badArgument
  | memoryLimit | stackLevel | failed | internal
  deriving DecidableEq

namespace ErrorCode

/-- The code as it is written. -/
def text : ErrorCode → String
  | .unexpectedCharacter => "LD-LEX-001"
  | .unclosedTag => "LD-LEX-002"
  | .unclosedOutput => "LD-LEX-003"
  | .malformed => "LD-PAR-001"
  | .unclosedBlock => "LD-PAR-002"
  | .unknownTag => "LD-PAR-003"
  | .unexpectedTag => "LD-PAR-004"
  | .nestingTooDeep => "LD-PAR-005"
  | .undefinedVariable => "LD-RUN-001"
  | .undefinedMethod => "LD-RUN-002"
  | .undefinedFilter => "LD-RUN-003"
  | .badArgument => "LD-RUN-004"
  | .memoryLimit => "LD-RUN-005"
  | .stackLevel => "LD-RUN-006"
  | .failed => "LD-RUN-007"
  | .internal => "LD-RUN-008"

/-- Every code. -/
def all : List ErrorCode :=
  [.unexpectedCharacter, .unclosedTag, .unclosedOutput, .malformed, .unclosedBlock, .unknownTag,
    .unexpectedTag, .nestingTooDeep, .undefinedVariable, .undefinedMethod, .undefinedFilter,
    .badArgument, .memoryLimit, .stackLevel, .failed, .internal]

/-- The code that is written so. -/
def ofText? (s : String) : Option ErrorCode := all.find? (·.text == s)

/-- The stage that reports errors of a code. -/
def category : ErrorCode → String
  | .unexpectedCharacter | .unclosedTag | .unclosedOutput => "lexer"
  | .malformed | .unclosedBlock | .unknownTag | .unexpectedTag | .nestingTooDeep => "parser"
  | _ => "runtime"

end ErrorCode

/-- What kind of thing went wrong. -/
inductive ErrorKind where
  | general | malformed | nesting | memory | undefinedVariable | undefinedMethod | undefinedFilter
  | badArgument | failed | internal
  deriving DecidableEq

namespace ErrorKind

/-- The code of an error that is given none of its own. -/
def code : ErrorKind → ErrorCode
  | .general | .failed => .failed
  | .malformed => .malformed
  | .nesting => .nestingTooDeep
  | .memory => .memoryLimit
  | .undefinedVariable => .undefinedVariable
  | .undefinedMethod => .undefinedMethod
  | .undefinedFilter => .undefinedFilter
  | .badArgument => .badArgument
  | .internal => .internal

/-- What the one-line form of an error starts with. -/
def label : ErrorKind → String
  | .malformed => "Ladle syntax error"
  | _ => "Ladle error"

end ErrorKind

/-- An error of a template with what is known of its place. -/
structure TemplateError where
  kind : ErrorKind
  message : String
  code : Option ErrorCode := some kind.code
  line : Option Int := none
  templateName : Option String := none
  markup : Option String := none
  suggestion : Option String := none
  source : Option String := none
  /-- The error of the host that this one was recorded in place of. -/
  insteadOf : Option HostError := none
  deriving DecidableEq

namespace TemplateError

/-- Label and place of an error, in front of its message. -/
def leader (e : TemplateError) : String :=
  match e.line with
  | none => e.kind.label ++ ": "
  | some line =>
    let place := "line " ++ toString line
    let place := match e.templateName with
      | some name => if name == "" then place else name ++ " " ++ place
      | none => place
    e.kind.label ++ " (" ++ place ++ "): "

/-- The one-line form of an error. -/
def summary (e : TemplateError) : String :=
  let text := e.leader ++ e.message
  match e.markup with
  | some markup => if markup == "" then text else text ++ " " ++ markup
  | none => text

/-- Code and message, or the message alone. -/
def header (colour : Bool) (code : Option String) (message : String) : String :=
  match code with
  | some code => if code == "" then message else Style.style colour .code code ++ ": " ++ message
  | none => message

/-- The text of an optional part when it is there and not empty. -/
def present (part : Option String) : Option String := part.filter (· != "")

/-- The diagnostic of an error: header, location, markup, snippet and hint, each on its own line. -/
def diagnostic (colour : Bool) (e : TemplateError) : String :=
  let head := header colour (e.code.map ErrorCode.text) e.message
  let name := (present e.templateName).getD "<template>"
  let place := match e.line with
    | some line => name ++ ":" ++ toString line
    | none => name
  let snippet := match present e.source, e.line with
    | some source, some line =>
      if line == 0 then [] else [(Snippet.build source line 2).text colour]
    | _, _ => []
  let markup := (present e.markup).toList.map ("  Markup: " ++ ·)
  let hint := (present e.suggestion).toList.map fun text =>
    "  " ++ Style.style colour .hint "Hint:" ++ " " ++ text
  "\n".intercalate
    ([head, "  --> " ++ Style.style colour .location place] ++ markup ++ snippet ++ hint)

/-- Fills in the line and the template name where they are missing. -/
def locate (e : TemplateError) (line : Option Int) (name : Option String) : TemplateError :=
  { e with line := e.line.or line, templateName := e.templateName.or name }

/-- Blocks or scopes are nested too deeply. -/
def nestingTooDeep : TemplateError := { kind := .nesting, message := "Nesting too deep" }

/-- A ceiling of a render is exceeded. -/
def memoryLimit : TemplateError := { kind := .memory, message := "Memory limits exceeded" }

/-- An error of another kind met inside a render. -/
def internal : TemplateError := { kind := .internal, message := "internal" }

/-- An argument that an operation does not take. -/
def badArgument (message : String) : TemplateError := { kind := .badArgument, message }

/-- A variable or path step that is not there. `known` holds the names a similar one is looked for
in. -/
def undefinedVariable (colour : Bool) (name : String) (known : List String) : TemplateError :=
  let hint := match Text.Likeness.closest name known with
    | some other => ". Did you mean '" ++ Style.style colour .suggestion other ++ "'?"
    | none => ""
  { kind := .undefinedVariable
    message := "undefined variable " ++ name ++ hint
    suggestion := some ("Use \x7b\x7b " ++ name ++ " | default: '' \x7d\x7d for optional variables") }

/-- A key that a host object does not expose. -/
def undefinedMethod (name : String) : TemplateError :=
  { kind := .undefinedMethod, message := "undefined method " ++ name }

/-- A filter that is not registered. -/
def undefinedFilter (name : String) : TemplateError :=
  { kind := .undefinedFilter, message := "undefined filter " ++ name }

/-- An error of a kind about a subject, which is a name for the kinds that concern one, and the
message for all others. -/
def about (colour : Bool) (kind : ErrorKind) (subject : String) (known : List String) :
    TemplateError :=
  match kind with
  | .undefinedVariable => undefinedVariable colour subject known
  | .undefinedMethod => undefinedMethod subject
  | .undefinedFilter => undefinedFilter subject
  | kind => { kind, message := subject }

end TemplateError

end Stencil
