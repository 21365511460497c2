import Stencil.Value.Number

/-!
Equality of values inside collections. Numbers are equal when their values are, true and false being
one and zero; collections are equal item by item; host objects only to themselves.
-/

namespace Stencil.Value

/-- Whether a number equals a value. -/
def sameNumber (a : Numeric) (w : Value) : Bool :=
  match w.numeric? with
  | some b => a.same b
  | none => false

mutual

/-- Whether two values are equal. -/
def eqv (v w : Value) : Bool :=
  match v with
  | .nil => match w with
    | .nil => true
    | _ => false
  | .bool b => sameNumber (.int (if b then 1 else 0)) w
  | .int n => sameNumber (.int n) w
  | .float x => sameNumber (.float x) w
  | .str s => match w with
    | .str t => s == t
    | _ => false
  | .list xs => match w with
    | .list ys => eqvAll xs ys
    | _ => false
  | .tuple xs => match w with
    | .tuple ys => eqvAll xs ys
    | _ => false
  | .range r => match w with
    | .range s => r.same s
    | _ => false
  | .map es => match w with
    | .map fs => es.length == fs.length && eqvEntries es fs
    | _ => false
  | .literal l => match w with
    | .literal m => l == m
    | _ => false
  | .function i _ => match w with
    | .function j _ => i == j
    | _ => false
  | .proxy i _ => match w with
    | .proxy j _ => i == j
    | _ => false
  | .sealed i _ => match w with
    | .sealed j _ => i == j
    | _ => false
  | .version m => match w with
    | .version n => m == n
    | _ => false
  | .drop i _ => match w with
    | .drop j _ => i == j
    | _ => false
  | .loop i => match w with
    | .loop j => i == j
    | _ => false

/-- Whether two sequences of items are equal; an item is always equal to itself. -/
def eqvAll (xs ys : List Value) : Bool :=
  match xs with
  | [] => ys.isEmpty
  | x :: xs => match ys with
    | [] => false
    | y :: ys => (sameMark x y || eqv x y) && eqvAll xs ys

/-- Whether every entry of a mapping has an equal one among the entries of another. -/
def eqvEntries (es fs : List (Value × Value)) : Bool :=
  match es with
  | [] => true
  | (k, v) :: rest =>
    fs.any (fun f =>
      (sameMark k f.1 || eqv k f.1) && (sameMark v f.2 || eqv v f.2)) && eqvEntries rest fs

end

/-- Whether a value is found where another stands: it is the same object, or equal to it. -/
def matchesItem (v w : Value) : Bool := sameMark v w || eqv v w

/-! ### Mappings -/

mutual

/-- The name of the type that keeps a value from being a key, if one does. -/
def unhashable? (v : Value) : Option String :=
  match v with
  | .list _ => some "list"
  | .map _ => some "dict"
  | .tuple xs => unhashableAmong? xs
  | _ => none

/-- The first type among the items that keeps them from being keys. -/
def unhashableAmong? (xs : List Value) : Option String :=
  match xs with
  | [] => none
  | x :: xs => (unhashable? x).or (unhashableAmong? xs)

end

/-- Looks a key up in the entries of a mapping. -/
def entry? (es : List (Value × Value)) (key : Value) : Outcome (Option Value) :=
  match key.unhashable? with
  | some name => .error (.unhashable name)
  | none => .ok ((es.find? fun e => matchesItem e.1 key).map (·.2))

/-- The entries with a key bound to a value; a key that is there keeps its place. -/
def putEntry {α : Type} (es : List (Value × α)) (key : Value) (value : α) : List (Value × α) :=
  match es with
  | [] => [(key, value)]
  | e :: rest =>
    if matchesItem e.1 key then (e.1, value) :: rest else e :: putEntry rest key value

/-- A mapping with the given entries; of equal keys the first stays with the last value. -/
def ofEntries (es : List (Value × Value)) : Value :=
  .map (es.foldl (fun acc e => putEntry acc e.1 e.2) [])

end Stencil.Value
