import Stencil.Render.Node
import Stencil.Template.Basic

/-!
Rendering templates. A render starts from the registers earlier ones left, collects its errors, and
ends with a text or, when errors are thrown on, with a failure.
-/

namespace Stencil

/-- Options of a render that differ from those of the environment. -/
structure RenderOptions where
  strictVariables : Option Bool := none
  strictFilters : Option Bool := none
  errorStyle : Option ErrorStyle := none
  globalFilter : Option GlobalFilter := none
  limits : Option LimitEntries := none
  rethrow : Bool := false

/-- What a render ends with. -/
structure Finished where
  result : Outcome String
  state : RenderState

namespace Body

/-- Renders a whole template. An exceeded ceiling leaves nothing but the text of its error, and a
signal that reaches the outermost body is dropped with a notice. -/
def renderWhole (body : Body) : Render String :=
  tryCatch (do
    let r ← body.render
    if let some signal := r.signal then
      let template := (← read).templateName
      modify fun s => { s with notices := s.notices ++ [.ignoredInterrupt signal template] }
    return r.text)
    fun failure => if failure.isFatal then Render.handle failure none else throw failure

end Body

namespace Registers

/-- Whether a key is metadata of a loop, which only exists during a render. -/
def isOfRender (key : Value) : Bool :=
  match key with
  | .loop _ => true
  | _ => false

/-- What the next render finds: groups named by an object of this render cannot be met again. -/
def retire (r : Registers) : Registers :=
  { r with
    cycles := r.cycles.map fun groups => groups.map fun g =>
      if g.key.any isOfRender then { g with key := none } else g
    turns := r.turns.map fun t => if t.key.any isOfRender then { t with key := none } else t }

end Registers

namespace Environment

/-- The settings of a render, given how filters render a source by itself. -/
def settings (env : Environment) (options : RenderOptions) (limits : Limits)
    (name : Option String) (data : Option Scope)
    (subrender : String → Outcome String × List Notice) : Settings where
  environments := data.toList
  filters := env.filters
  ceilings := limits.ceilings
  strictVariables := options.strictVariables.getD env.strictVariables
  strictFilters := options.strictFilters.getD env.strictFilters
  rethrow := options.rethrow
  errorStyle := (options.errorStyle.or env.errorStyle).getD .summary
  globalFilter := options.globalFilter
  templateName := name
  subrender := subrender

/-- Runs a render that can be started. -/
def run (settings : Settings) (counts : Counts) (registers : Registers) (body : Body) : Finished :=
  let (result, state) := (body.renderWhole settings).run { registers, counts }
  { result, state }

/-- How deeply templates may be rendered inside templates. -/
def maxSubrenders : Nat := 64

/-- Renders a source as a template of its own, without data and from empty registers. -/
def subrenderWithin (env : Environment) : Nat → String → Outcome String × List Notice
  | 0, _ => (.error (.host ⟨.failed, "templates are rendered inside each other too deeply"⟩), [])
  | depth + 1, source =>
    let name := some "inner"
    match env.parse {} name source with
    | (.error e, notices) => (.error e, notices)
    | (.ok t, notices) =>
      match Limits.ofEntries env.limits with
      | .error e => (.error e, notices)
      | .ok limits =>
        let finished :=
          run (env.settings {} limits name (some []) (subrenderWithin env depth)) limits.counts {}
            t.body
        (finished.result, notices ++ finished.state.notices)

/-- Starts a render of a template from given registers, unless the limits are not valid. -/
def start (env : Environment) (options : RenderOptions) (data : Option Scope)
    (registers : Registers) (t : Template) : Outcome Finished := do
  let limits ← Limits.ofEntries (options.limits.getD env.limits)
  return run (env.settings options limits t.name data (env.subrenderWithin maxSubrenders))
    limits.counts registers t.body

end Environment

/-- What a render gives and leaves behind. -/
structure Report where
  result : Outcome String
  notices : List Notice
  /-- The template with the errors and counts of its last render. -/
  template : Template
  /-- The registers the next render starts from. -/
  registers : Registers

namespace Template

/-- Renders a template with options and data that may themselves be refused. A render that cannot be
started leaves everything as it is. -/
def render (env : Environment) (call : Outcome (RenderOptions × Option Scope))
    (registers : Registers) (t : Template) : Report :=
  match call.bind fun (options, data) => env.start options data registers t with
  | .error e => { result := .error e, notices := [], template := t, registers }
  | .ok finished => {
      result := finished.result
      notices := finished.state.notices
      template :=
        { t with errors := finished.state.errors, counts := some finished.state.counts }
      registers := finished.state.registers.retire }

/-- The data of a render given by arguments: at most one mapping, and names on top of it. -/
def dataOf (args : List Value) (names : Scope) : Outcome Scope :=
  match args with
  | [] => .ok names
  | [.map es] =>
    .ok (Named.putAll (es.filterMap fun
      | (.str key, v) => some (key, v)
      | _ => none) names)
  | args => .error (.badType
      ("render() takes at most 1 positional argument (a mapping), got " ++ toString args.length))

end Template

end Stencil
