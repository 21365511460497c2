import Stencil.Text.Blank
import Stencil.Value.Equality
import Stencil.Value.Text

/-!
Conversions of values: to whole numbers, leniently and strictly, to numbers for arithmetic, to lists,
and to slices of what can be iterated.
-/

namespace Stencil.Value

open Text

/-! ### Whole numbers -/

/-- What a failed reading of a whole number says; of what it quotes it keeps the first 200 characters. -/
def numeralFailure (s : List Char) : Number.NumeralError → Failure
  | .invalid =>
    .badValue ("invalid literal for int() with base 10: " ++
      String.ofList ((quoted (String.ofList s)).toList.take 200))
  | .tooLong digits => .tooManyDigitsRead digits

/-- The sign and the characters with a digit value at the front of a text. -/
def leadingNumeral (s : List Char) : List Char :=
  match s with
  | c :: rest =>
    if c == '-' || c == '+' then c :: rest.takeWhile isDigitLike else s.takeWhile isDigitLike
  | [] => []

/-- The whole number a text starts with, zero when it starts with none. -/
def leadingInt (s : List Char) : Outcome Int :=
  let numeral := leadingNumeral (trim s)
  if numeral.isEmpty || numeral == ['-'] || numeral == ['+'] then .ok 0
  else (Number.readInt numeral).mapError (numeralFailure numeral)

/-- Lenient conversion to a whole number: floating-point numbers are cut off, texts give their
leading digits, nil and booleans give zero. -/
def toInt (loops : Loops) : Value → Outcome Int
  | .nil | .bool _ => .ok 0
  | .int n => .ok n
  | .float x => Numeric.truncateFloat x
  | v => do leadingInt (← v.written loops).toList

/-- Strict conversion to a whole number, as the ends of ranges need it. -/
def toInteger (loops : Loops) : Value → Outcome Int
  | .int n => .ok n
  | v =>
    let text := v.written loops
    match text with
    | .error (.host ⟨.badValue, _⟩) => .error (.template (.badArgument "invalid integer"))
    | .error e => .error e
    | .ok s => (Number.readInt s.toList).mapError fun _ =>
        .template (.badArgument "invalid integer")

/-- The end of a range: nil and texts are converted leniently, all else strictly. -/
def toRangeEnd (loops : Loops) : Value → Outcome Int
  | .int n => .ok n
  | .nil => .ok 0
  | .str s => toInt loops (.str s)
  | v => toInteger loops v

/-- The number a value stands for in arithmetic: texts are read as whole or as floating-point
numbers, and what is no number counts as zero. -/
def toNumber (loops : Loops) : Value → Outcome Numeric
  | .int n => .ok (.int n)
  | .float x => .ok (.float x)
  | v => do
    let s := (← v.written loops).toList
    match Number.readInt s with
    | .ok n => return .int n
    | .error _ =>
      match Number.readBinary 0 s with
      | some x => return .float x
      | none => return .int 0

/-! ### Collections -/

/-- The items of a value for filters: nil has none, sequences have theirs, and all else is its own
only item. -/
def toItems : Value → List Value
  | .nil => []
  | .list xs | .tuple xs => xs
  | .range r => ofSpan r
  | v => [v]

/-- A bound of a slice, brought into the range of a length; negative bounds count from the end. -/
def clampBound (length : Nat) (bound : Int) : Nat :=
  if bound < 0 then (bound + length).toNat else min bound.toNat length

/-- The part of a list between two bounds. -/
def sliceBetween {α : Type} (xs : List α) (start : Int) (stop : Option Int) : List α :=
  let first := clampBound xs.length start
  let last := clampBound xs.length (stop.getD xs.length)
  (xs.drop first).take (last - first)

/-- The items at places from `start` on and before `stop`. -/
def window {α : Type} (xs : List α) (start : Int) (stop : Option Int) : List α :=
  let kept := match stop with
    | some n => xs.take n.toNat
    | none => xs
  kept.drop start.toNat

/-- The integers of a span at places from `start` on and before `stop`. -/
def spanWindow (r : Span) (start : Int) (stop : Option Int) : List Value :=
  let last := match stop with
    | some n => min n.toNat r.count
    | none => r.count
  (List.range (last - start.toNat)).map fun i => .int (r.get (start.toNat + i))

/-- The items of a collection at places from `start` on and before `stop`. A text is a single item,
a mapping is a sequence of pairs, a drop may load its own slices, and what cannot be iterated is
empty. -/
def slice (collection : Value) (start : Int) (stop : Option Int) : List Value :=
  match collection with
  | .str s => if s == "" then [] else [.str s]
  | .map es => window (es.map fun e => .list [e.1, e.2]) start stop
  | .list xs | .tuple xs => window xs start stop
  | .range r => spanWindow r start stop
  | .drop _ d =>
    match d.slices with
    | some xs =>
      if start != 0 || stop.isSome then sliceBetween xs start stop
      else window (d.items.getD []) start stop
    | none => window (d.items.getD []) start stop
  | _ => []

mutual

/-- The size an assigned value is counted with: texts by their length, collections by their members
and one more, anything else as one. -/
def assignScore (v : Value) : Nat :=
  match v with
  | .str s => s.length
  | .map es => 1 + assignScoreOfEntries es
  | .list xs => 1 + assignScoreOfItems xs
  | .tuple xs => 1 + assignScoreOfItems xs
  | _ => 1

/-- The sizes of the items of a sequence. -/
def assignScoreOfItems (xs : List Value) : Nat :=
  match xs with
  | [] => 0
  | x :: xs => assignScore x + assignScoreOfItems xs

/-- The sizes of the entries of a mapping, each with one more. -/
def assignScoreOfEntries (es : List (Value × Value)) : Nat :=
  match es with
  | [] => 0
  | (k, v) :: es => 1 + assignScore k + assignScore v + assignScoreOfEntries es

end

end Stencil.Value
