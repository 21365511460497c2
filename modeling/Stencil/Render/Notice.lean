import Stencil.Tree.Node

/-!
Notices: what parsing and rendering report beside their results.
-/

namespace Stencil

/-- Something worth a warning. -/
inductive Notice where
  /-- Markup that only the tolerant grammar takes. -/
  | laxFallback (e : TemplateError)
  /-- An interrupt that no loop took. -/
  | ignoredInterrupt (signal : Interrupt) (template : Option String)
  deriving DecidableEq

namespace Notice

/-- Where a notice is reported. -/
def channel : Notice → String
  | .laxFallback _ => "ladle.nodes.base"
  | .ignoredInterrupt .. => "ladle.template.core"

/-- The wording of a notice. -/
def message : Notice → String
  | .laxFallback e => "Falling back to lax parsing: " ++ e.summary
  | .ignoredInterrupt signal template =>
    "Ignoring " ++ signal.name ++ " outside of a loop in " ++
      (TemplateError.present template).getD "<template>"

end Notice

end Stencil
