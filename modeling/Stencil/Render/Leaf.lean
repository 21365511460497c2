import Stencil.Filter.Invoke
import Stencil.Tree.Node

/-!
What nodes without bodies put into the output.
-/

namespace Stencil

/-- What a node has put out: its text, and the signal that stopped it early, if one did. -/
structure Rendered where
  text : String := ""
  signal : Option Interrupt := none

namespace Render

/-- The output form of a value. -/
def outputText (v : Value) : Render String := do ofOutcome (v.output (← loops))

/-- Applies the global filter. -/
def filterGlobally (v : Value) : Render Value := do
  match (← read).globalFilter with
  | none => return v
  | some .bracket => return .str ("[" ++ (← outputText v) ++ "]")
  | some .nothing => return .nil
  | some .twice => return .list [v, v]
  | some .failing => throw (.host ⟨.failed, ""⟩)
  | some (.custom f) => ofOutcome (f v)

end Render

namespace Output

/-- The text of an output. -/
def render (o : Output) : Render String := do
  Render.outputText (← Render.filterGlobally (← o.pipeline.evaluate))

end Output

namespace Render

/-- Assigns the value of an output, which is counted by its size. -/
def assignOutput (target : String) (source : Output) : Render Unit := do
  let v ← source.pipeline.evaluate
  assign target v
  modifyCounts fun c => { c with assigned := c.assigned + v.assignScore }

/-- Assigns a text, which is counted by its length. -/
def assignText (target text : String) : Render Unit := do
  assign target (.str text)
  modifyCounts fun c => { c with assigned := c.assigned + text.length }

/-! ### Cycles -/

/-- Whether a group has a key. -/
def CycleGroup.hasKey (group : CycleGroup) (key : Value) : Bool :=
  group.key.any (Value.matchesItem · key)

/-- The index of the next value of a group, zero for a new one. -/
def nextOf (groups : List CycleGroup) (key : Value) : Nat :=
  (groups.find? (CycleGroup.hasKey · key)).elim 0 (·.next)

/-- Notes the index of the next value of a group. -/
def setNext (groups : List CycleGroup) (key : Value) (next : Nat) : List CycleGroup :=
  match groups with
  | [] => [{ key := some key, next }]
  | g :: rest =>
    if CycleGroup.hasKey g key then { g with next } :: rest else g :: setNext rest key next

/-- The next value of a cycle. The group goes on once the value is known. -/
def cycle (group : Expr) (values : List Expr) : Render String := do
  if values.isEmpty then return ""
  modifyRegisters fun r => { r with cycles := some (r.cycles.getD []) }
  let key ← group.evaluate
  match key.unhashable? with
  | some type => throw (.unhashable type)
  | none =>
    let index := nextOf ((← registers).cycles.getD []) key % values.length
    let v ← (values[index]?.getD (.value .nil)).evaluate
    modifyRegisters fun r => { r with
      cycles := some (setNext (r.cycles.getD []) key ((index + 1) % values.length))
      turns := { key := some key, values, index } :: r.turns }
    outputText v

end Render

/-- What an extension tag without a body puts out. -/
def LeafKind.render (kind : LeafKind) (markup : String) : Render String := do
  match kind with
  | .shout => return String.ofList (Text.upper (Text.trim markup.toList))
  | .scopeDepth => return toString (← get).scopes.length
  | .plain => return ""

end Stencil
