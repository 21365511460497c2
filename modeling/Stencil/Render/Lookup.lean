import Stencil.Expr.Basic
import Stencil.Render.State
import Stencil.Value.Convert

/-!
Looking values up: variables by name, members of host objects, and keys of collections. Whatever a
lookup finds is brought into the form templates see and bound to the render it was found in.
-/

namespace Stencil.Render

/-! ### Variables -/

/-- Binds a host object to this render. -/
def bind (v : Value) : Render Value := do
  match v with
  | .drop id _ => modify fun s => { s with boundDrops := id :: s.boundDrops.erase id }
  | .loop id => modify fun s => { s with boundLoops := id :: s.boundLoops.erase id }
  | _ => pure ()
  return v

/-- The value a host object stands for, if it stands for another one. -/
def unwrap : Value → Value
  | .proxy _ inner => inner
  | v => v

/-- Everything that names are looked up in: scopes from the innermost on, then the data. -/
def layers : Render (List Scope) := do return (← get).scopes ++ (← read).environments

/-- The result of a function of the host, given how variables are looked up. -/
def call (find : String → Render Value) : HostFunction Value → Render Value
  | .constant result => pure result
  | .variable name => find name
  | .scopeCount => do return .int (← get).scopes.length
  | .failing failure => throw failure

/-- A stored value as templates see it: functions are called, and the result is bound. -/
def settle (find : String → Render Value) (v : Value) : Render Value := do
  match v with
  | .function _ f => bind (unwrap (← call find f))
  | v => bind (unwrap v)

/-- What a name that nothing binds gives: an error when variables are strict, else nil. -/
def undefined (name : Value) : Render Value := do
  if (← read).strictVariables then
    let text ← ofOutcome (name.written (← loops))
    let names := (← layers).flatMap fun layer => layer.map (·.1)
    fail (.undefinedVariable false text (if name.isText then names else []))
  return .nil

/-- Looks a text up; a variable whose function asks for another one uses up a unit of fuel. -/
def findWithin : Nat → String → Render Value
  | 0, _ => throw (.host ⟨.failed, "a variable refers to itself"⟩)
  | fuel + 1, name => do
    match (← layers).findSome? (·.get? name) with
    | some v => settle (findWithin fuel) v
    | none => undefined (.str name)

/-- How many names are bound, counted once per layer. -/
def bindingCount (layers : List Scope) : Nat := (layers.map List.length).foldl (· + ·) 0

/-- The value of a variable. No chain of functions without a circle is longer than the number of
bindings. -/
def find (name : String) : Render Value := do findWithin (bindingCount (← layers) + 1) name

/-- The value of a variable whose name is any value. -/
def findNamed (name : Value) : Render Value := do
  match name with
  | .str s => find s
  | name =>
    match name.unhashable?, ← layers with
    | some type, _ :: _ => throw (.unhashable type)
    | _, _ => undefined name

/-- Whether anything is bound under a name, which can be any value that can be a key. -/
def isBound (name : Value) : Render Bool := do
  match name, name.unhashable?, ← layers with
  | .str s, _, layers => return layers.any (·.has s)
  | _, some type, _ :: _ => throw (.unhashable type)
  | _, _, _ => return false

/-! ### Members of host objects -/

/-- What is said about a call without the argument it needs. -/
def missingArgument (function argument : String) : Failure :=
  .badType (function ++ "() missing 1 required positional argument: '" ++ argument ++ "'")

/-- The value of a declared member of the drop with the given number. -/
def member (id : Nat) : Member Value → Render Value
  | .method result => pure result
  | .property (.function _ (.constant result)) => pure result
  | .property (.function _ (.failing failure)) => throw failure
  | .property (.function ..) => throw (missingArgument "function" "context")
  | .property v => pure v
  | .reading name => do if (← get).boundDrops.contains id then find name else return .nil
  | .failing failure => throw failure

/-- What an object that does not expose a key answers: an error when it is bound to a render with
strict variables, else nil. -/
def missing (bound : Bool) (key : Value) : Render Value := do
  if bound && (← read).strictVariables then
    fail (.undefinedMethod (← ofOutcome (key.written (← loops))))
  return .nil

/-- What a drop answers to a key that it does not expose. -/
def missingOf (id : Nat) (d : Drop Value) (key : Value) : Render Value := do
  match d.missing with
  | some text => return .str (text ++ (← ofOutcome (key.written (← loops))))
  | none => missing ((← get).boundDrops.contains id) key

/-- What a host object answers to a key. -/
def resolve (v key : Value) : Render Value := do
  match v, key with
  | .drop id d, .str name =>
    if !d.exposed.contains name then missingOf id d key
    else match d.member? name with
      | some m => member id m
      | none => throw (missingArgument name "key")
  | .drop id d, key => missingOf id d key
  | .loop id, key =>
    let answer := match key, (← loops)[id]? with
      | .str name, some info => info.answer? name
      | _, _ => none
    match answer with
    | some answer => return answer
    | none => missing ((← get).boundLoops.contains id) key
  | _, _ => return .nil

/-- Whether a drop accepts a key. -/
def accepts (d : Drop Value) (key : Value) : Bool :=
  match d.keys with
  | some keys => keys.any (Value.matchesItem · key)
  | none => true

/-- Whether a host object exposes a name. -/
def exposes (v : Value) (name : String) : Render Bool := do
  match v with
  | .drop _ d => return d.exposed.contains name
  | .loop id => return ((← loops)[id]?).any fun info => (info.answer? name).isSome
  | _ => return false

/-! ### Steps of paths -/

/-- The item of a sequence at a place, nil behind its end. -/
def itemAt (v : Value) (place : Nat) : Render Value := do
  match v with
  | .list xs | .tuple xs => return xs[place]?.getD .nil
  | .range r =>
    match v.length? with
    | some length => return if place < (← ofOutcome length) then .int (r.get place) else .nil
    | none => return .nil
  | _ => return .nil

/-- What a key gives on a value; none when there is no such key. -/
def key? (v key : Value) : Render (Option Value) := do
  match v with
  | .drop _ d =>
    ask .path v key
    if accepts d key then return some (← resolve v key) else return none
  | .loop _ =>
    ask .path v key
    return some (← resolve v key)
  | .map es =>
    match Value.entry? es key with
    | .ok (some found) => return some (← settle find found)
    | _ => return none
  | .list _ | .tuple _ | .range _ =>
    match key with
    | .int n => if 0 ≤ n then return some (← itemAt v n.toNat) else return none
    | _ => return none
  | _ => return none

/-- The first item of a sequence, nil when it is empty. -/
def firstOf? : Value → Option Value
  | .list xs | .tuple xs => some (xs.headD .nil)
  | .range r => some (if r.count == 0 then .nil else .int (r.get 0))
  | _ => none

/-- The last item of a sequence, nil when it is empty. -/
def lastOf? : Value → Option Value
  | .list xs | .tuple xs => some (xs.getLastD .nil)
  | .range r => some (if r.count == 0 then .nil else .int (r.get (r.count - 1)))
  | _ => none

/-- What a command gives on a value; none when the value does not support it. -/
def command? (v : Value) (name : String) : Render (Option Value) := do
  ask .path v (.str name)
  if ← exposes v name then return some (← resolve v (.str name))
  match name with
  | "size" =>
    match v.length? with
    | some length => return some (.int (← ofOutcome length))
    | none => return none
  | "first" => return firstOf? v
  | "last" => return lastOf? v
  | _ => return none

/-- One step of a path: a key, or else the command of that name where one is allowed. -/
def step? (v key : Value) (command : Option String) : Render (Option Value) := do
  match ← key? v key, command with
  | some found, _ => return some (← bind (unwrap found))
  | none, none => return none
  | none, some name =>
    match ← command? v name with
    | some found => return some (← bind (unwrap found))
    | none => return none

/-- What a path whose step leads nowhere gives. -/
def lost (key : Value) : Render Value := do
  if (← read).strictVariables then
    fail (.undefinedVariable false (← ofOutcome (key.written (← loops))) [])
  return .nil

end Stencil.Render
