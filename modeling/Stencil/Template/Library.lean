import Stencil.Template.Render

/-!
Libraries: an environment with the templates that were read in it, by name, and stores of registers
that renders of several templates share.
-/

namespace Stencil

/-- An environment with its templates and register stores. -/
structure Library where
  env : Environment := {}
  templates : Named Template := []
  stores : Named Registers := []

namespace Library

/-- Reads a template and keeps it under a key, in place of an earlier one. -/
def read (lib : Library) (key : String) (overrides : ParseOverrides) (name : Option String)
    (source : String) : Outcome Template × List Notice × Library :=
  let (result, notices) := lib.env.parse overrides name source
  match result with
  | .ok t => (.ok t, notices, { lib with templates := lib.templates.put key t })
  | .error e => (.error e, notices, lib)

/-- Renders a template with a shared store, which is empty at first, or with its own registers. -/
def render (lib : Library) (key : String) (store : Option String)
    (call : Outcome (RenderOptions × Option Scope)) : Outcome Report × Library :=
  match lib.templates.get? key with
  | none => (.error (Environment.unknownName key), lib)
  | some t =>
    match store with
    | some name =>
      let report := t.render lib.env call ((lib.stores.get? name).getD {})
      (.ok report, { lib with
        templates := lib.templates.put key report.template
        stores := lib.stores.put name report.registers })
    | none =>
      let report := t.render lib.env call t.registers
      (.ok report, { lib with
        templates := lib.templates.put key { report.template with registers := report.registers } })

end Library

end Stencil
