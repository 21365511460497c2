import Stencil.Render.Lookup
import Stencil.Tree.Condition
import Stencil.Value.Compare

/-!
Evaluating expressions and conditions. A chain of comparisons is folded from the left, and a
comparison whose result cannot change the outcome is not evaluated.
-/

namespace Stencil

namespace Expr

mutual

/-- The value of an expression. -/
def evaluate (e : Expr) : Render Value :=
  match e with
  | .value v => pure v
  | .lookup root path => do follow path (← Render.findNamed (← evaluate root))
  | .range first last => do
    let start ← evaluate first
    let start ← Render.ofOutcome (start.toRangeEnd (← Render.loops))
    let stop ← evaluate last
    let stop ← Render.ofOutcome (stop.toRangeEnd (← Render.loops))
    return .range (.inclusive start stop)

/-- What a path from a value leads to. -/
def follow (path : List Step) (v : Value) : Render Value :=
  match path with
  | [] => pure v
  | .name s :: rest => do
    match ← Render.step? v (.str s) (if isCommand s then some s else none) with
    | some next => follow rest next
    | none => Render.lost (.str s)
  | .index e :: rest => do
    let key ← evaluate e
    match ← Render.step? v key none with
    | some next => follow rest next
    | none => Render.lost key

end

end Expr

/-- Whether a comparison holds. -/
def Comparison.holds (c : Comparison) : Render Bool := do
  let left ← c.left.evaluate
  match c.operator with
  | none => return left.isTruthy
  | some name =>
    let right ← c.right.evaluate
    match Operator.ofText? name with
    | some op => Render.ofOutcome (op.apply (← Render.loops) left right)
    | none => Render.fail (.badArgument ("Unknown operator " ++ name))

namespace Condition

/-- Joins a comparison to the result so far; any word but "or" demands both. -/
def join (sofar : Bool) (relation : String) (c : Comparison) : Render Bool :=
  if relation == "or" then if sofar then pure true else c.holds
  else if sofar then c.holds else pure false

/-- Goes on with a chain from the result so far. -/
def holdsFrom (sofar : Bool) (relation : String) : Condition → Render Bool
  | .single c => join sofar relation c
  | .joined c next rest => do holdsFrom (← join sofar relation c) next rest

/-- Whether a condition holds. -/
def holds : Condition → Render Bool
  | .single c => c.holds
  | .joined c relation rest => do holdsFrom (← c.holds) relation rest

end Condition

end Stencil
