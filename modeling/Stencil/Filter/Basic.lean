import Stencil.Named
import Stencil.Value.Basic

/-!
Filters by name: the built-in ones with the parameters they take, and those a host adds.
-/

namespace Stencil

/-- The built-in filters. -/
inductive BuiltinFilter where
  | abs | append | atLeast | atMost | capitalize | default | dividedBy | downcase | escape | first
  | join | last | lstrip | map | minus | modulo | plus | prepend | remove | replace | reverse | round
  | rstrip | size | sort | split | strip | times | truncate | uniq | upcase
  deriving DecidableEq

namespace BuiltinFilter

/-- Every built-in filter. -/
def all : List BuiltinFilter :=
  [.abs, .append, .atLeast, .atMost, .capitalize, .default, .dividedBy, .downcase, .escape, .first,
    .join, .last, .lstrip, .map, .minus, .modulo, .plus, .prepend, .remove, .replace, .reverse,
    .round, .rstrip, .size, .sort, .split, .strip, .times, .truncate, .uniq, .upcase]

/-- The name a filter is registered under. -/
def name : BuiltinFilter → String
  | .abs => "abs"
  | .append => "append"
  | .atLeast => "at_least"
  | .atMost => "at_most"
  | .capitalize => "capitalize"
  | .default => "default"
  | .dividedBy => "divided_by"
  | .downcase => "downcase"
  | .escape => "escape"
  | .first => "first"
  | .join => "join"
  | .last => "last"
  | .lstrip => "lstrip"
  | .map => "map"
  | .minus => "minus"
  | .modulo => "modulo"
  | .plus => "plus"
  | .prepend => "prepend"
  | .remove => "remove"
  | .replace => "replace"
  | .reverse => "reverse"
  | .round => "round"
  | .rstrip => "rstrip"
  | .size => "size"
  | .sort => "sort"
  | .split => "split"
  | .strip => "strip"
  | .times => "times"
  | .truncate => "truncate"
  | .uniq => "uniq"
  | .upcase => "upcase"

/-- The parameters after the value, with the defaults of those that may be left out. -/
def parameters : BuiltinFilter → List (String × Option Value)
  | .append => [("suffix", none)]
  | .prepend => [("prefix", none)]
  | .replace => [("old", none), ("new", some (.str ""))]
  | .remove => [("text", none)]
  | .split => [("separator", some (.str " "))]
  | .truncate => [("length", some (.int 50)), ("ellipsis", some (.str "..."))]
  | .join => [("glue", some (.str " "))]
  | .sort => [("key", some .nil)]
  | .map => [("key", none)]
  | .plus | .minus | .times | .dividedBy | .modulo => [("other", none)]
  | .round => [("digits", some (.int 0))]
  | .atLeast => [("minimum", none)]
  | .atMost => [("maximum", none)]
  | .default => [("fallback", some (.str "")), ("allow_false", some (.bool false))]
  | _ => []

end BuiltinFilter

/-- Filters a host adds; they take any arguments and ignore those they have no use for. -/
inductive HostFilter where
  /-- Adds an exclamation mark. -/
  | shout
  /-- Shows the value and all arguments. -/
  | echo
  /-- Gives a fixed value. -/
  | constant (result : Value)
  /-- Fails. -/
  | failing (failure : Failure)
  /-- Gives the name of the template. -/
  | templateName
  /-- Looks up the variable the value names. -/
  | lookup
  /-- Renders the value as a template of its own, without data. -/
  | render
  /-- Any other function of the value and the arguments. -/
  | custom (f : Value → List Value → Named Value → Outcome Value)

/-- A filter of a template. -/
inductive Filter where
  | builtin (f : BuiltinFilter)
  | host (f : HostFilter)

/-- The filters every template has unless its environment says otherwise. -/
def builtinFilters : Named Filter :=
  BuiltinFilter.all.map fun f => (f.name, .builtin f)

/-! ### Arguments -/

namespace Parameters

/-- Binds positional arguments to the parameters from the left. -/
def bindPositional :
    List (String × Option Value) → List Value → List (String × Option Value × Option Value)
  | [], _ => []
  | (name, fallback) :: rest, [] => (name, fallback, none) :: bindPositional rest []
  | (name, fallback) :: rest, v :: vs => (name, fallback, some v) :: bindPositional rest vs

/-- Binds one keyword argument. -/
def bindKeyword (function : String) (slots : List (String × Option Value × Option Value))
    (key : String) (v : Value) : Outcome (List (String × Option Value × Option Value)) :=
  match slots.find? (·.1 == key) with
  | none => .error (.badType (function ++ " got an unexpected keyword argument '" ++ key ++ "'"))
  | some (_, _, some _) =>
    .error (.badType (function ++ " got multiple values for argument '" ++ key ++ "'"))
  | some (_, fallback, none) =>
    .ok (slots.map fun slot => if slot.1 == key then (key, fallback, some v) else slot)

/-- What is said about too many positional arguments, the value included in both counts. -/
def tooMany (function : String) (least most given : Nat) : Failure :=
  let range := if least == most then toString most
    else "from " ++ toString least ++ " to " ++ toString most
  .badType (function ++ " takes " ++ range ++ " positional argument" ++
    (if most == 1 then "" else "s") ++ " but " ++ toString given ++ " were given")

/-- Fills in the defaults; a parameter without one must have been bound. -/
def complete (function : String) :
    List (String × Option Value × Option Value) → Outcome (List Value)
  | [] => .ok []
  | (name, fallback, v) :: rest =>
    match v.or fallback with
    | some v => (complete function rest).map (v :: ·)
    | none => .error (.badType
        (function ++ " missing 1 required positional argument: '" ++ name ++ "'"))

/-- Binds arguments to parameters. Keywords are looked at first, then the number of positional
arguments, then what is missing. -/
def bind (function : String) (parameters : List (String × Option Value)) (args : List Value)
    (kwargs : Named Value) : Outcome (List Value) := do
  let slots ← kwargs.foldlM (fun slots (key, v) => bindKeyword function slots key v)
    (bindPositional parameters args)
  if parameters.length < args.length then
    let required := (parameters.filter (·.2.isNone)).length
    throw (tooMany function (required + 1) (parameters.length + 1) (args.length + 1))
  complete function slots

end Parameters

end Stencil
