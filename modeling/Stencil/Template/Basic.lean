import Stencil.Environment.Basic
import Stencil.Render.Notice

/-!
Templates: a tree with the name it is reported under, and what its renders leave behind.
-/

namespace Stencil

/-- A template that has been read. -/
structure Template where
  name : Option String := none
  body : Body
  /-- What the tolerant grammar had to be used for. -/
  warnings : List TemplateError := []
  registers : Registers := {}
  /-- The errors recorded in the last render. -/
  errors : List TemplateError := []
  /-- What the last render used up. -/
  counts : Option Counts := none

/-- Options of reading that differ from those of the environment. -/
structure ParseOverrides where
  mode : Option String := none
  numbered : Option Bool := none
  maxDepth : Option Int := none

namespace Template

/-- A line about a template. -/
def text (t : Template) : String :=
  "<Template " ++ (TemplateError.present t.name).getD "(inline)" ++ ">"

/-- Attaches the source an error was found in. -/
def withSource (source : String) : Failure → Failure
  | .template e => .template { e with source := e.source.or (some source) }
  | .host e => .host e

end Template

namespace Environment

/-- The options a template is read with. -/
def parseOptions (env : Environment) (overrides : ParseOverrides) (name : Option String) :
    Outcome ParseOptions := do
  let mode ← match overrides.mode with
    | some mode => ModeChoice.ofName mode
    | none => env.mode.resolve
  return {
    tags := env.tags
    mode
    numbered := overrides.numbered.getD env.numbered
    maxDepth := overrides.maxDepth.getD env.maxDepth
    name }

/-- Reads a template. The notices are also given when it cannot be read. -/
def parse (env : Environment) (overrides : ParseOverrides) (name : Option String)
    (source : String) : Outcome Template × List Notice :=
  match env.parseOptions overrides name with
  | .error e => (.error e, [])
  | .ok options =>
    let (result, warnings) := (parseBody options source.toList).run []
    let result := match result with
      | .ok body => .ok { name, body, warnings }
      | .error e => .error (Template.withSource source e)
    (result, warnings.map .laxFallback)

end Environment

end Stencil
