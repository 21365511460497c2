import Stencil.Value.Basic

/-!
Loop metadata: what a template can ask about the loop it is in. All answers follow from the place of
the current item.
-/

namespace Stencil

/-- Metadata of a running loop; `index` counts from zero. -/
inductive LoopInfo where
  /-- A loop over items, with the number of the enclosing loop. -/
  | items (name : String) (length index : Int) (parent : Option Nat)
  /-- A table, with its columns and the row and column of the current cell, counted from one. -/
  | table (length cols index row col : Int)
  deriving DecidableEq

/-- The metadata of all loops of a render, by number. -/
abbrev Loops := Array LoopInfo

namespace LoopInfo

/-- The metadata for the next item. -/
def advance : LoopInfo → LoopInfo
  | .items name length index parent => .items name length (index + 1) parent
  | .table length cols index row col =>
    if col == cols then .table length cols (index + 1) (row + 1) 1
    else .table length cols (index + 1) row (col + 1)

/-- Answers that all loops have in common. -/
def shared (length index : Int) : List (String × Value) :=
  [("first", .bool (index == 0)), ("index", .int (index + 1)), ("index0", .int index),
    ("last", .bool (index == length - 1)), ("length", .int length),
    ("rindex", .int (length - index)), ("rindex0", .int (length - index - 1))]

/-- Every name that can be asked for, with its answer. -/
def answers : LoopInfo → List (String × Value)
  | .items name length index parent =>
    shared length index ++
      [("name", .str name), ("parentloop", (parent.map Value.loop).getD .nil)]
  | .table length cols index row col =>
    shared length index ++
      [("col", .int col), ("col0", .int (col - 1)), ("col_first", .bool (col == 1)),
        ("col_last", .bool (col == cols)), ("row", .int row)]

/-- The answer to a name. -/
def answer? (info : LoopInfo) (name : String) : Option Value :=
  (info.answers.find? (·.1 == name)).map (·.2)

/-- The metadata as text. -/
def text : LoopInfo → String
  | .items name length index _ =>
    "<ForloopDrop " ++ name ++ " " ++ toString (index + 1) ++ "/" ++ toString length ++ ">"
  | .table _ _ _ row col =>
    "<TablerowloopDrop row=" ++ toString row ++ " col=" ++ toString col ++ ">"

end LoopInfo

end Stencil
