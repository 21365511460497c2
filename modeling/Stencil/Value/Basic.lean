import Stencil.Diagnostic.Failure
import Stencil.Number.Binary64

/-!
Values: what templates compute with. Numbers, text, collections and the two pseudo-literals are plain
data; host objects are told apart by the number they were registered under.
-/

namespace Stencil

/-- The integers `start, start + step, …` up to `stop`, which is left out. -/
structure Span where
  start : Int
  stop : Int
  step : Int
  deriving DecidableEq

namespace Span

/-- How many integers a span holds. -/
def count (r : Span) : Nat :=
  if 0 < r.step then ((r.stop - r.start + r.step - 1) / r.step).toNat
  else if r.step < 0 then ((r.start - r.stop - r.step - 1) / -r.step).toNat
  else 0

/-- The integer at a place of a span, counted from zero. -/
def get (r : Span) (i : Nat) : Int := r.start + i * r.step

/-- Whether an integer is in a span. -/
def holds (r : Span) (n : Int) : Bool :=
  if 0 < r.step then r.start ≤ n && n < r.stop && (n - r.start) % r.step == 0
  else if r.step < 0 then n ≤ r.start && r.stop < n && (r.start - n) % -r.step == 0
  else false

/-- Spans are equal when they hold the same integers in the same order. -/
def same (r s : Span) : Bool :=
  r.count == s.count &&
    (r.count == 0 || (r.start == s.start && (r.count == 1 || r.step == s.step)))

/-- The integers from `first` to `last`, both included. -/
def inclusive (first last : Int) : Span := ⟨first, last + 1, 1⟩

end Span

/-- The pseudo-literals that test a value for emptiness when compared with it. -/
inductive Literal where
  | blank | empty
  deriving DecidableEq

/-- The name of a pseudo-literal. -/
def Literal.name : Literal → String
  | .blank => "blank"
  | .empty => "empty"

/-- A function of the host, called when it is looked up. -/
inductive HostFunction (α : Type) where
  /-- Gives a fixed value. -/
  | constant (result : α)
  /-- Looks a variable up. -/
  | variable (name : String)
  /-- Counts the scopes. -/
  | scopeCount
  /-- Fails. -/
  | failing (failure : Failure)

/-- What a name declared by a drop stands for. -/
inductive Member (α : Type) where
  /-- A method that gives a fixed value. -/
  | method (result : α)
  /-- A property. -/
  | property (value : α)
  /-- A method that reads a variable of the render the drop is bound to. -/
  | reading (name : String)
  /-- A method that fails. -/
  | failing (failure : Failure)

/-- A host object with a controlled set of lookups. -/
structure Drop (α : Type) where
  name : String
  members : List (String × Member α)
  /-- The keys the drop accepts, when it does not accept all. -/
  keys : Option (List α)
  /-- The text in front of a key the drop does not expose, when it answers for such keys. -/
  missing : Option String
  /-- The items of a drop that can be iterated. -/
  items : Option (List α)
  /-- The items of a drop that loads its own slices. -/
  slices : Option (List α)

namespace Drop

/-- Names declared by overriding parts of the interface of drops. -/
def overrides {α : Type} (d : Drop α) : List String :=
  (if d.keys.isSome then ["has_key"] else []) ++ (if d.missing.isSome then ["missing"] else []) ++
    (if d.slices.isSome then ["load_slice"] else [])

/-- The names that templates can reach: declared, and not starting with an underscore. -/
def exposed {α : Type} (d : Drop α) : List String :=
  (d.members.map (·.1) ++ d.overrides).filter fun name =>
    !name.startsWith "_" && name != "to_liquid"

/-- The member of a name. -/
def member? {α : Type} (d : Drop α) (name : String) : Option (Member α) :=
  (d.members.find? (·.1 == name)).map (·.2)

end Drop

/-- A value of a template. -/
inductive Value where
  | nil
  | bool (b : Bool)
  | int (n : Int)
  | float (x : Binary64)
  | str (s : String)
  | list (items : List Value)
  | tuple (items : List Value)
  | range (r : Span)
  | map (entries : List (Value × Value))
  | literal (l : Literal)
  | function (id : Nat) (f : HostFunction Value)
  /-- A host object that stands for another value. -/
  | proxy (id : Nat) (inner : Value)
  /-- A host object with a text and nothing else. -/
  | sealed (id : Nat) (text : String)
  /-- A host scalar with an order of its own. -/
  | version (n : Int)
  | drop (id : Nat) (spec : Drop Value)
  /-- The loop metadata with this number in the current render. -/
  | loop (id : Nat)
  deriving Inhabited

namespace Value

/-- Everything but nil and false is true. -/
def isTruthy : Value → Bool
  | .nil | .bool false => false
  | _ => true

/-- Whether a value is a text. -/
def isText : Value → Bool
  | .str _ => true
  | _ => false

/-- Whether a value is a drop, loop metadata included. -/
def isDrop : Value → Bool
  | .drop .. | .loop _ => true
  | _ => false

/-- The greatest length that can be asked for. -/
def maxLength : Nat := Nat.pow 2 63 - 1

/-- The length of a value that has one. -/
def length? : Value → Option (Outcome Nat)
  | .str s => some (.ok s.length)
  | .list xs | .tuple xs => some (.ok xs.length)
  | .map es => some (.ok es.length)
  | .range r =>
    some (if maxLength < r.count then .error .tooManyItems else .ok r.count)
  | _ => none

/-- The items of a span as values. -/
def ofSpan (r : Span) : List Value := (List.range r.count).map fun i => .int (r.get i)

/-- The items of a list, tuple or range. -/
def sequence? : Value → Option (List Value)
  | .list xs | .tuple xs => some xs
  | .range r => some (ofSpan r)
  | _ => none

end Value

end Stencil
