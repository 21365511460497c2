import Stencil.Diagnostic.Failure
import Stencil.Text.Blank

/-!
Parsing as a computation: it may fail, and it keeps the complaints it recovered from.
-/

namespace Stencil

/-- Which grammar markup is read with. -/
inductive ErrorMode where
  /-- The tolerant one. -/
  | lax
  /-- The strict one, and on failure the tolerant one with a warning. -/
  | warn
  /-- The strict one. -/
  | strict
  deriving DecidableEq

namespace ErrorMode

/-- The name of a mode. -/
def name : ErrorMode → String
  | .lax => "lax"
  | .warn => "warn"
  | .strict => "strict"

/-- The mode of a name. -/
def ofName? (s : String) : Option ErrorMode := [lax, warn, strict].find? (·.name == s)

end ErrorMode

/-- A parsing step: it fails or not, and adds to the warnings in either case. -/
abbrev Parsing := ExceptT Failure (StateM (List TemplateError))

namespace Parsing

/-- A step without warnings. -/
def ofOutcome {α : Type} (outcome : Outcome α) : Parsing α := liftExcept outcome
where
  /-- The step that gives an outcome. -/
  liftExcept {β : Type} : Outcome β → Parsing β
    | .ok a => pure a
    | .error e => throw e

/-- Keeps a warning. -/
def warn (e : TemplateError) : Parsing Unit := modify (· ++ [e])

/-- How an error names the markup it is about. -/
def markupNote (markup : List Char) : String :=
  "in \"" ++ String.ofList (Text.trim markup) ++ "\""

/-- Reads markup with the grammar of a mode. A complaint of the strict grammar is given its line and
markup; when warnings are wanted it becomes one, and the tolerant grammar is used instead. -/
def select {α : Type} (mode : ErrorMode) (line : Option Nat)
    (strict lax : List Char → Outcome α) (markup : List Char) : Parsing α :=
  match mode with
  | .lax => ofOutcome (lax markup)
  | mode =>
    match strict markup with
    | .ok a => pure a
    | .error (.template e) =>
      if e.kind == .malformed then do
        let e := { e with line := e.line.or (line.map Int.ofNat), markup := some (markupNote markup) }
        if mode == .strict then throw (.template e)
        warn e
        ofOutcome (lax markup)
      else throw (.template e)
    | .error e => throw e

end Parsing

end Stencil
