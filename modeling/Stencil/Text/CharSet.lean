/-!
Sets of characters given by the points where membership changes.
-/

namespace Stencil.Text

/-- A set of code points: `bounds` is increasing, and membership changes at each of its entries. -/
structure CharSet where
  bounds : Array Nat

namespace CharSet

/-- Number of entries of `bounds` in `[lo, hi)` that are at most `n`, plus `lo`, by halving. -/
def rank (bounds : Array Nat) (n : Nat) (lo hi : Nat) : Nat :=
  if _h : lo < hi then
    let mid := (lo + hi) / 2
    if bounds.getD mid 0 ≤ n then rank bounds n (mid + 1) hi
    else rank bounds n lo mid
  else lo
termination_by hi - lo

/-- A code point is in the set when an odd number of bounds lie at or below it. -/
def contains (set : CharSet) (n : Nat) : Bool :=
  rank set.bounds n 0 set.bounds.size % 2 == 1

end CharSet

end Stencil.Text
