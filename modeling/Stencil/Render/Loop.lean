import Stencil.Render.Leaf

/-!
Loops over collections, given what rendering their bodies does. A loop takes the signals of its body;
only what stands behind its else passes them on.
-/

namespace Stencil

namespace Render

/-- Adds the metadata of a loop. -/
def addLoop (info : LoopInfo) : Render Nat := do
  let id := (← get).loops.size
  modify fun s => { s with loops := s.loops.push info }
  return id

/-- Moves the metadata of a loop to the next item. -/
def advanceLoop (id : Nat) : Render Unit :=
  modify fun s => { s with loops := s.loops.modify id LoopInfo.advance }

/-- The innermost running loop. -/
def innermostLoop : Render (Option Nat) := do return (← get).registers.loopStack.head?

/-- Runs a step while a loop is the innermost running one. -/
def withLoop {α : Type} (id : Nat) (step : Render α) : Render α := do
  modifyRegisters fun r => { r with loopStack := id :: r.loopStack }
  ensuring step fun s =>
    { s with registers := { s.registers with loopStack := s.registers.loopStack.tail } }

/-- Renders the body of a loop for one item after another, each in a scope of its own. -/
def renderItems (id : Nat) (itemName : String) (body : Render Rendered) :
    List Value → Render String
  | [] => return ""
  | item :: rest => do
    let r ← withScope (Named.put [("forloop", .loop id)] itemName item) body
    advanceLoop id
    if r.signal == some .leave then return r.text
    return r.text ++ (← renderItems id itemName body rest)

/-- The value of an optional whole number. -/
def bound (e : Option Expr) : Render (Option Int) := do
  match e with
  | none => return none
  | some e =>
    let v ← e.evaluate
    return some (← ofOutcome (v.toInt (← loops)))

end Render

namespace LoopHeader

open Render

/-- Where a loop starts: where the last one of its name stopped, or at its offset. -/
def startOf (header : LoopHeader) : Render Int := do
  if header.continues then return (← registers).offset header.name
  return (← bound header.offset).getD 0

/-- The items a loop visits. Where the loop stops is noted before any is visited. -/
def itemsOf (header : LoopHeader) : Render (List Value) := do
  modifyRegisters fun r => { r with offsets := some (r.offsets.getD []) }
  let collection ← header.collection.evaluate
  let start ← header.startOf
  let limit ← bound header.limit
  let slice := collection.slice start (limit.map (start + ·))
  visit { header, collection, start, limit, slice }
  return if header.reversed then slice.reverse else slice

/-- Renders a loop, given its body and what stands behind its else. -/
def render (header : LoopHeader) (body : Render Rendered) (otherwise : Option (Render Rendered)) :
    Render Rendered := do
  let items ← header.itemsOf
  if items.isEmpty then
    match otherwise with
    | some step => withScope [] step
    | none => return {}
  else
    let id ← addLoop (.items header.name items.length 0 (← innermostLoop))
    return { text := ← withLoop id (renderItems id header.itemName body items) }

end LoopHeader

namespace Render

/-- What is put between a cell and the next one. -/
def rowBreak : LoopInfo → String
  | .table length cols index row col =>
    if col == cols && index != length - 1 then
      "</tr>\n<tr class=\"row" ++ toString (row + 1) ++ "\">"
    else ""
  | .items .. => ""

/-- What is put in front of a cell. -/
def cellStart : LoopInfo → String
  | .table _ _ _ _ col => "<td class=\"col" ++ toString col ++ "\">"
  | .items .. => ""

/-- Renders the cells of a table, one for each item. -/
def renderCells (id : Nat) (itemName : String) (body : Render Rendered) :
    List Value → Render String
  | [] => return ""
  | item :: rest => do
    setLocal itemName item
    match (← loops)[id]? with
    | none => return ""
    | some info =>
      let r ← body
      let cell := cellStart info ++ r.text ++ "</td>" ++ rowBreak info
      advanceLoop id
      if r.signal == some .leave then return cell
      return cell ++ (← renderCells id itemName body rest)

end Render

namespace TableHeader

open Render

/-- The cells of a table. -/
def renderRows (header : TableHeader) (body : Render Rendered) (collection : Value) :
    Render String := do
  let start := (← bound (header.attributes.get? "offset")).getD 0
  let stop := (← bound (header.attributes.get? "limit")).map (start + ·)
  let items := collection.slice start stop
  let cols := (← bound (header.attributes.get? "cols")).getD 0
  let id ← addLoop (.table items.length cols 0 1 1)
  let cells ← withScope [("tablerowloop", .loop id)] (renderCells id header.itemName body items)
  return "<tr class=\"row1\">\n" ++ cells ++ "</tr>\n"

/-- Renders a table, given the body of its cells; without a collection there is no table. -/
def render (header : TableHeader) (body : Render Rendered) : Render Rendered := do
  match ← header.collection.evaluate with
  | .nil | .bool false => return {}
  | collection => return { text := ← header.renderRows body collection }

end TableHeader

end Stencil
