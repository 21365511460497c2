import Stencil.Filter.Basic
import Stencil.Named
import Stencil.Render.Notice
import Stencil.Value.LoopInfo

/-!
The state of a render: scopes, registers, counters and errors, and the computations on it. A failure
leaves the state as it was when it arose.
-/

namespace Stencil

/-- Variables by name. -/
abbrev Scope := Named Value

/-! ### Ceilings -/

/-- What a render has used up. -/
structure Counts where
  /-- Characters put out, counted at every level of nesting. -/
  length : Int := 0
  /-- Nodes visited. -/
  score : Int := 0
  /-- Sizes of assigned values. -/
  assigned : Int := 0
  deriving DecidableEq

/-- The most a render may use up; an absent ceiling is no limit. -/
structure Ceilings where
  length : Option Int := none
  score : Option Int := none
  assigned : Option Int := none
  deriving DecidableEq

namespace Ceilings

/-- Whether any count is above its ceiling. -/
def exceeded (ceilings : Ceilings) (counts : Counts) : Bool :=
  ceilings.length.any (· < counts.length) || ceilings.score.any (· < counts.score) ||
    ceilings.assigned.any (· < counts.assigned)

end Ceilings

/-! ### Registers -/

/-- A group of cycles and the index of its next value. A group whose key was an object of a finished
render has no key any more. -/
structure CycleGroup where
  key : Option Value
  next : Nat

/-- A cycle took a value. -/
structure Turn where
  /-- The key of the group, as long as it can be met. -/
  key : Option Value
  /-- The values of the cycle. -/
  values : List Expr
  /-- The place of the one that was taken. -/
  index : Nat

/-- What tags remember from one render to the next. -/
structure Registers where
  /-- Where each loop stopped, once a loop has been met. -/
  offsets : Option (Named Int) := none
  /-- The cycle groups in the order of their first use, once a cycle has been met. -/
  cycles : Option (List CycleGroup) := none
  /-- The last text that was put because it had changed. -/
  shown : Option String := none
  /-- The running loops, innermost first. -/
  loopStack : List Nat := []
  /-- The values that cycles have taken so far, latest first. -/
  turns : List Turn := []

namespace Registers

/-- Where a loop stopped, zero when it has not run. -/
def offset (r : Registers) (name : String) : Int := ((r.offsets.getD []).get? name).getD 0

/-- Notes where a loop stopped. -/
def setOffset (r : Registers) (name : String) (offset : Int) : Registers :=
  { r with offsets := some ((r.offsets.getD []).put name offset) }

end Registers

/-! ### Settings and state -/

/-- How errors are put into the output. -/
inductive ErrorStyle where
  | summary | code | empty | message | line
  /-- A text of the host's own. -/
  | custom (text : TemplateError → String)

/-- The text of an error in the output. -/
def ErrorStyle.render (style : ErrorStyle) (e : TemplateError) : String :=
  match style with
  | .summary => e.summary
  | .code => "[" ++ (e.code.elim "None" ErrorCode.text) ++ "]"
  | .empty => ""
  | .message => e.message
  | .line => e.line.elim "None" toString
  | .custom text => text e

/-- What every output value goes through before it is written. -/
inductive GlobalFilter where
  | bracket | nothing | twice | failing
  /-- A function of the host's own. -/
  | custom (f : Value → Outcome Value)

/-- What stays fixed during a render. -/
structure Settings where
  /-- Data given to the render, searched after all scopes. -/
  environments : List Scope := []
  filters : Named Filter := builtinFilters
  ceilings : Ceilings := {}
  strictVariables : Bool := false
  strictFilters : Bool := false
  rethrow : Bool := false
  errorStyle : ErrorStyle := .summary
  globalFilter : Option GlobalFilter := none
  templateName : Option String := none
  /-- Renders a source as a template of its own. -/
  subrender : String → Outcome String × List Notice := fun _ => (.ok "", [])

/-- What had been used up and recorded when the ceilings were checked. -/
structure Check where
  counts : Counts
  /-- How many errors had been recorded. -/
  recorded : Nat

/-- How a host object comes to be asked for a key: by a step of a path, or as an item that a filter
processes. -/
inductive Route where
  | path | item
  deriving DecidableEq

/-- A host object was asked for a key. -/
structure Ask where
  object : Value
  key : Value
  route : Route
  /-- Whether the object was bound to this render. -/
  bound : Bool

/-- A loop was met. -/
structure Visit where
  header : LoopHeader
  collection : Value
  start : Int
  limit : Option Int
  /-- What the loop goes through, in the order of the collection. -/
  slice : List Value

/-- Where a loop stops. -/
def Visit.stop (v : Visit) : Int := v.start + v.slice.length

/-- What changes during a render. -/
structure RenderState where
  /-- Scopes, innermost first. -/
  scopes : List Scope := [[]]
  registers : Registers := {}
  counts : Counts := {}
  /-- The checks of the ceilings so far, latest first. -/
  checks : List Check := []
  /-- Recorded errors, in order. -/
  errors : List TemplateError := []
  loops : Loops := #[]
  /-- Drops that are bound to this render. -/
  boundDrops : List Nat := []
  /-- Loop metadata that is bound to this render. -/
  boundLoops : List Nat := []
  /-- The questions to host objects so far, latest first. -/
  asks : List Ask := []
  /-- The loops met so far, latest first. -/
  visits : List Visit := []
  notices : List Notice := []

/-- The state without its innermost scope. -/
def RenderState.leave (s : RenderState) : RenderState := { s with scopes := s.scopes.tail }

/-- The state with a check of the ceilings noted. -/
def RenderState.noteCheck (s : RenderState) : RenderState :=
  { s with checks := { counts := s.counts, recorded := s.errors.length } :: s.checks }

/-- Whether a value is bound to this render, if it is a host object. -/
def RenderState.isBound? (s : RenderState) : Value → Option Bool
  | .drop id _ => some (s.boundDrops.contains id)
  | .loop id => some (s.boundLoops.contains id)
  | _ => none

/-- The state with the question for a key noted, if it is put to a host object. -/
def RenderState.noteAsk (s : RenderState) (route : Route) (object key : Value) : RenderState :=
  { s with asks :=
      ((s.isBound? object).map fun bound => { object, key, route, bound }).toList ++ s.asks }

/-- The state with a loop noted, and where it stops. -/
def RenderState.noteVisit (s : RenderState) (v : Visit) : RenderState :=
  { s with registers := s.registers.setOffset v.header.name v.stop, visits := v :: s.visits }

/-- A step of a render. -/
abbrev Render := ReaderT Settings (ExceptT Failure (StateM RenderState))

namespace Render

/-- A step that gives an outcome and changes nothing. -/
def ofOutcome {α : Type} : Outcome α → Render α
  | .ok a => pure a
  | .error e => throw e

/-- Fails with an error of the template. -/
def fail {α : Type} (e : TemplateError) : Render α := throw (.template e)

/-- The metadata of all loops. -/
def loops : Render Loops := do return (← get).loops

/-- What tags remember. -/
def registers : Render Registers := do return (← get).registers

/-- Runs a step and changes the state after it, however it ends. -/
def ensuring {α : Type} (step : Render α) (after : RenderState → RenderState) : Render α :=
  fun settings => ExceptT.mk fun state =>
    let (result, state) := (step settings).run state
    (result, after state)

/-- Changes the registers. -/
def modifyRegisters (f : Registers → Registers) : Render Unit :=
  modify fun s => { s with registers := f s.registers }

/-- Changes the counts. -/
def modifyCounts (f : Counts → Counts) : Render Unit :=
  modify fun s => { s with counts := f s.counts }

/-- Notes a question to a value for a key. -/
def ask (route : Route) (object key : Value) : Render Unit := modify (·.noteAsk route object key)

/-- Notes a loop and where it stops. -/
def visit (v : Visit) : Render Unit := modify (·.noteVisit v)

/-- Fails when a count is above its ceiling. -/
def checkCeilings : Render Unit := do
  modify RenderState.noteCheck
  if (← read).ceilings.exceeded (← get).counts then fail .memoryLimit

/-- Counts characters that were put out, and checks the ceilings. -/
def countLength (length : Nat) : Render Unit := do
  modifyCounts fun c => { c with length := c.length + length }
  checkCeilings

/-- The most scopes there may be when another one is entered. -/
def maxScopes : Nat := 100

/-- Enters a new innermost scope. -/
def enter (scope : Scope) : Render Unit := do
  if maxScopes < (← get).scopes.length then fail .nestingTooDeep
  modify fun s => { s with scopes := scope :: s.scopes }

/-- Runs a step in a new innermost scope, which is left however the step ends. -/
def withScope {α : Type} (scope : Scope) (step : Render α) : Render α := do
  enter scope
  ensuring step RenderState.leave

/-- Binds a name in the first of the given scopes. -/
def putInnermost (name : String) (v : Value) : List Scope → List Scope
  | [] => []
  | scope :: rest => scope.put name v :: rest

/-- Binds a name in the last of the given scopes. -/
def putOutermost (name : String) (v : Value) : List Scope → List Scope
  | [] => []
  | [scope] => [scope.put name v]
  | scope :: rest => scope :: putOutermost name v rest

/-- Changes the scopes in a way that needs at least one. -/
def modifyScopes (f : List Scope → List Scope) : Render Unit := do
  if (← get).scopes.isEmpty then throw (.host ⟨.outOfRange, "there is no scope"⟩)
  modify fun s => { s with scopes := f s.scopes }

/-- Binds a name in the innermost scope. -/
def setLocal (name : String) (v : Value) : Render Unit := modifyScopes (putInnermost name v)

/-- Binds a name for the rest of the render. -/
def assign (name : String) (v : Value) : Render Unit := modifyScopes (putOutermost name v)

/-- Records a failure and gives the text that is put in its place; with rethrow, fails again. -/
def handle (failure : Failure) (line : Option Int) : Render String := do
  let settings ← read
  let e := failure.recorded.locate line settings.templateName
  modify fun s => { s with errors := s.errors ++ [e] }
  if settings.rethrow then
    match failure with
    | .template _ => throw (.template e)
    | .host h => throw (.host h)
  return settings.errorStyle.render e

end Render

end Stencil
