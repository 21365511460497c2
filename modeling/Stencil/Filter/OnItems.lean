import Stencil.Value.Convert
import Stencil.Value.Order

/-!
Filters on collections: sizes, duplicates and sorting.
-/

namespace Stencil.Filter

/-- The items of a value. A range with too many of them cannot be listed. -/
def items (v : Value) : Outcome (List Value) :=
  match v with
  | .range r =>
    if Value.maxLength < r.count then .error .tooManyItems else .ok (Value.ofSpan r)
  | v => .ok v.toItems

/-- The items of a value, a text being taken as its characters. -/
def members (v : Value) : Outcome (List Value) :=
  match v with
  | .str s => .ok (s.toList.map fun c => .str (String.singleton c))
  | v => items v

/-- How many items or characters a value has; zero for what has no length. -/
def size (v : Value) : Outcome Nat := (v.length?).getD (.ok 0)

/-- The items without those equal to an earlier one; `seen` holds what is kept so far, in order. -/
def uniqAfter (seen : List Value) : List Value → List Value
  | [] => seen
  | v :: rest =>
    if seen.any (Value.matchesItem · v) then uniqAfter seen rest else uniqAfter (seen ++ [v]) rest

/-- The items without duplicates, the first of equal ones being kept. -/
def uniq (vs : List Value) : List Value := uniqAfter [] vs

/-- Whether a key is there. -/
def hasKey (k : Value.Keyed) : Bool :=
  match k.key with
  | .nil => false
  | _ => true

/-- Items in the order of their keys; those without a key come last, in their given order. -/
def sortKeyed (ks : List Value.Keyed) : Outcome (List Value) :=
  match Value.sort? (ks.filter hasKey) with
  | some sorted => .ok (sorted.map (·.item) ++ (ks.filter (!hasKey ·)).map (·.item))
  | none => .error (.template (.badArgument "cannot sort values of different types"))

/-- Whether a value is replaced by a default: nil, false unless it is allowed, and what is empty. -/
def isMissing (allowFalse : Bool) (v : Value) : Outcome Bool :=
  match v with
  | .nil => .ok true
  | .bool false => .ok (!allowFalse)
  | v =>
    match v.length? with
    | some length => length.map (· == 0)
    | none => .ok false

end Stencil.Filter
