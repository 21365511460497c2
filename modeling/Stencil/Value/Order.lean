import Stencil.Value.Equality

/-!
The order of values that sorting uses. Numbers, texts and versions are ordered among themselves, and
lists and tuples by their first items that differ; other pairs cannot be ordered.
-/

namespace Stencil.Value

mutual

/-- Whether a value is less than another; none when the two cannot be ordered. -/
def less? (v w : Value) : Option Bool :=
  match v with
  | .bool b => (w.numeric?).map ((Numeric.int (if b then 1 else 0)).less ·)
  | .int n => (w.numeric?).map ((Numeric.int n).less ·)
  | .float x => (w.numeric?).map ((Numeric.float x).less ·)
  | .str s => match w with
    | .str t => some (decide (s < t))
    | _ => none
  | .list xs => match w with
    | .list ys => lessAll? xs ys
    | _ => none
  | .tuple xs => match w with
    | .tuple ys => lessAll? xs ys
    | _ => none
  | .version m => match w with
    | .version n => some (decide (m < n))
    | _ => none
  | _ => none

/-- The order of two sequences: by the first items that differ, else the shorter one is less. -/
def lessAll? (xs ys : List Value) : Option Bool :=
  match xs with
  | [] => some (!ys.isEmpty)
  | x :: xs => match ys with
    | [] => some false
    | y :: ys => if matchesItem x y then lessAll? xs ys else less? x y

end

/-! ### Sorting

Items are sorted by their keys: the longest run at the front that is already in order (or strictly in
reverse order, which is turned round) is kept, and every further item is put by halving after all
items whose key is not greater. -/

/-- An item with the value it is sorted by. -/
structure Keyed where
  key : Value
  item : Value

/-- Length of the front part whose neighbours all compare as `descending` says. -/
def runLength? (descending : Bool) (last : Keyed) : List Keyed → Option Nat
  | [] => some 0
  | k :: rest => do
    if (← less? k.key last.key) == descending then
      return (← runLength? descending k rest) + 1
    else return 0

/-- Where an item goes between places `lo` and `hi` of a sorted list. -/
def placeWithin? (sorted : List Keyed) (key : Value) : Nat → Nat → Nat → Option Nat
  | 0, lo, _ => some lo
  | fuel + 1, lo, hi =>
    if lo < hi then do
      let mid := (lo + hi) / 2
      match sorted[mid]? with
      | none => return lo
      | some k =>
        if ← less? key k.key then placeWithin? sorted key fuel lo mid
        else placeWithin? sorted key fuel (mid + 1) hi
    else some lo

/-- Puts an item into a sorted list, after the items whose key is not greater. -/
def insertSorted? (sorted : List Keyed) (k : Keyed) : Option (List Keyed) :=
  (placeWithin? sorted k.key (sorted.length + 1) 0 sorted.length).map fun i =>
    sorted.take i ++ k :: sorted.drop i

/-- The items in the order of their keys, equal keys in their given order; none when two keys that
have to be compared cannot be ordered. -/
def sort? : List Keyed → Option (List Keyed)
  | [] => some []
  | [k] => some [k]
  | k :: l :: rest => do
    let descending ← less? l.key k.key
    let count := (← runLength? descending l rest) + 2
    let front := (k :: l :: rest).take count
    let run := if descending then front.reverse else front
    ((k :: l :: rest).drop count).foldlM insertSorted? run

end Stencil.Value
