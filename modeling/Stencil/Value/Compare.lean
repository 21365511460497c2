import Stencil.Value.Convert
import Stencil.Text.Search
import Stencil.Value.Order

/-!
Comparison operators of conditions. Equality takes booleans for equal to booleans alone; the ordering
operators are false, and not an error, for values that have no order at all.
-/

namespace Stencil

/-- A comparison operator. -/
inductive Operator where
  | equal | unequal | less | greater | atLeast | atMost | contains
  deriving DecidableEq

namespace Operator

/-- The operator of a spelling. -/
def ofText? : String → Option Operator
  | "==" => some .equal
  | "!=" | "<>" => some .unequal
  | "<" => some .less
  | ">" => some .greater
  | ">=" => some .atLeast
  | "<=" => some .atMost
  | "contains" => some .contains
  | _ => none

end Operator

namespace Literal

/-- Whether a pseudo-literal accepts a value: both accept what has no items, and blank also nil,
false and texts of blanks. -/
def accepts (l : Literal) (v : Value) : Outcome Bool :=
  let isEmpty : Outcome Bool := match v.length? with
    | some length => length.map (· == 0)
    | none => .ok false
  match l, v with
  | .blank, .nil | .blank, .bool false => .ok true
  | .blank, .str s => .ok (Text.isAllBlank s.toList)
  | _, _ => isEmpty

end Literal

namespace Value

/-- Whether a value is true or false. -/
def isBool : Value → Bool
  | .bool _ => true
  | _ => false

/-- Equality in conditions: a pseudo-literal tests the other side. -/
def equal (v w : Value) : Outcome Bool :=
  match v, w with
  | .literal l, w => l.accepts w
  | v, .literal l => l.accepts v
  | v, w => .ok (v.isBool == w.isBool && eqv v w)

/-- The scalars that have an order, by what they are compared as. -/
inductive Scalar where
  | number (n : Numeric)
  | text (s : String)
  | version (n : Int)

/-- The scalar with an order that a value is; booleans are none. -/
def scalar? : Value → Option Scalar
  | .int n => some (.number (.int n))
  | .float x => some (.number (.float x))
  | .str s => some (.text s)
  | .version n => some (.version n)
  | _ => none

/-- The name of the type of a scalar in messages. -/
def Scalar.typeName : Scalar → String
  | .number (.int _) => "int"
  | .number (.float _) => "float"
  | .text _ => "str"
  | .version _ => "Version"

/-- How two scalars compare: an error when their types have no common order, and none when one of
them is not a number. -/
def Scalar.compare (a b : Scalar) : Outcome (Option Ordering) :=
  match a, b with
  | .number m, .number n => .ok (m.compare? n)
  | .text s, .text t => .ok (some (if s < t then .lt else if s == t then .eq else .gt))
  | .version m, .version n => .ok (some (Ord.compare m n))
  | a, b => .error (.template (.badArgument
      ("comparison of " ++ a.typeName ++ " with " ++ b.typeName ++ " failed")))

/-- An ordering operator, given what it makes of how the two sides compare. -/
def ordered (accepts : Ordering → Bool) (v w : Value) : Outcome Bool :=
  match v.scalar?, w.scalar? with
  | some a, some b => (a.compare b).map fun o => o.any accepts
  | _, _ => .ok false

/-- Whether a number is among the integers of a span. -/
def spanHolds (r : Span) : Numeric → Bool
  | .int n => r.holds n
  | .float (.finite s m e) =>
    let n := Binary64.truncate s m e
    Numeric.same (.int n) (.float (.finite s m e)) && r.holds n
  | .float _ => false

/-- Whether a collection has a member, or a text a part; nil has and is neither. -/
def hasMember (loops : Loops) (v w : Value) : Outcome Bool :=
  match v, w with
  | .nil, _ | _, .nil => .ok false
  | .str s, w => do return Text.occursIn (← w.written loops).toList s.toList
  | .list xs, w | .tuple xs, w => .ok (xs.any (matchesItem · w))
  | .range r, w => .ok ((w.numeric?).any (spanHolds r))
  | .map es, w =>
    match entry? es w with
    | .ok found => .ok found.isSome
    | .error _ => .ok false
  | _, _ => .ok false

end Value

namespace Operator

/-- The result of an operator on two values. -/
def apply (loops : Loops) (op : Operator) (v w : Value) : Outcome Bool :=
  match op with
  | .equal => v.equal w
  | .unequal => (v.equal w).map (!·)
  | .less => v.ordered (· == .lt) w
  | .greater => v.ordered (· == .gt) w
  | .atLeast => v.ordered (· != .lt) w
  | .atMost => v.ordered (· != .gt) w
  | .contains => v.hasMember loops w

end Operator

end Stencil
