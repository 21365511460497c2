import Stencil.Tree.Node

/-!
Heads of tags: what the markup of loops, tables, assignments, captures and cycles says.
-/

namespace Stencil

/-- An expression, unless it is written as nil. -/
def Expr.unlessNil : Expr → Option Expr
  | .value .nil => none
  | e => some e

namespace LoopHeader

/-- The head of a loop without attributes. -/
def start (itemName collection : List Char) (reversed : Bool) : Outcome LoopHeader := do
  return {
    itemName := String.ofList itemName
    name := String.ofList (itemName ++ '-' :: collection)
    collection := ← Expr.read collection
    reversed }

/-- Sets an attribute; other names than limit and offset are passed over. -/
def withAttribute (header : LoopHeader) (key value : List Char) : Outcome LoopHeader :=
  if key == "offset".toList then
    if value == "continue".toList then .ok { header with offset := none, continues := true }
    else do return { header with offset := (← Expr.read value).unlessNil, continues := false }
  else if key == "limit".toList then do
    return { header with limit := (← Expr.read value).unlessNil }
  else .ok header

/-- Reads the head of a loop tolerantly. -/
def readLax (markup : List Char) : Outcome LoopHeader :=
  match Fragment.loopHeader? markup with
  | none => complain .loopHeader
  | some (itemName, collection, reversed) => do
    let header ← start itemName collection reversed
    (Fragment.attributes markup).foldlM (fun h (key, value) => h.withAttribute key value) header

/-- Reads attributes up to the ending; every step takes at least one lexeme. -/
def readAttributes : Nat → LoopHeader → Grammar.Rest → Outcome LoopHeader
  | 0, header, _ => .ok header
  | fuel + 1, header, ls =>
    if Grammar.looksAt .identifier 0 ls && Grammar.looksAt .colon 1 ls then
      match (Grammar.word? "limit" ls).or (Grammar.word? "offset" ls) with
      | none => complain .loopAttribute
      | some (key, rest) => do
        let (value, rest) ← Grammar.expression rest.tail |>.mapError (·.complaint.toFailure)
        readAttributes fuel (← header.withAttribute key value) rest
    else do
      let _ ← Grammar.take .ending ls |>.mapError (·.complaint.toFailure)
      return header

/-- Reads the head of a loop strictly. -/
def readStrict (markup : List Char) : Outcome LoopHeader := do
  let ls ← Grammar.lexemes markup |>.mapError Complaint.toFailure
  let (itemName, rest) ← Grammar.take .identifier ls |>.mapError (·.complaint.toFailure)
  match Grammar.word? "in" rest with
  | none => complain .loopWithoutIn
  | some (_, rest) =>
    let (collection, rest) ← Grammar.expression rest |>.mapError (·.complaint.toFailure)
    match Grammar.word? "reversed" rest with
    | some (_, rest) =>
      readAttributes (rest.length + 1) (← start itemName collection true) rest
    | none => readAttributes (rest.length + 1) (← start itemName collection false) rest

end LoopHeader

namespace TableHeader

/-- Reads the head of a table; a repeated attribute keeps its first place and its last value. -/
def read (markup : List Char) : Outcome TableHeader :=
  match Fragment.tableHeader? markup with
  | none => complain .tableHeader
  | some (itemName, collection) => do
    let collection ← Expr.read collection
    (Fragment.attributes markup).foldlM
      (fun h (key, value) => do
        return { h with attributes := h.attributes.put (String.ofList key) (← Expr.read value) })
      { itemName := String.ofList itemName, collection }

end TableHeader

/-- Group and values of a cycle. A group that is not named is named by its values. -/
def readCycle (markup : List Char) : Outcome (Expr × List Expr) :=
  match Fragment.namedCycle? markup with
  | some (group, values) => do
    let values ← (Fragment.cycleValues values).mapM Expr.read
    return (← Expr.read group, values)
  | none =>
    if (Fragment.at? markup).isNone then complain .cycleValues
    else do
      let values ← (Fragment.cycleValues markup).mapM Expr.read
      let names ← values.mapM Expr.shown
      return (.value (.str (", ".intercalate names)), values)

end Stencil
