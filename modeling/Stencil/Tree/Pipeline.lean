import Stencil.Expr.Reading
import Stencil.Markup.Fragment
import Stencil.Markup.Grammar

/-!
Pipelines: an expression and the filters its value goes through. Both grammars are here.
-/

namespace Stencil

/-- A filter with its arguments. -/
structure FilterCall where
  name : String
  args : List Expr := []
  kwargs : List (String × Expr) := []

/-- An expression and the filters its value goes through, from left to right. -/
structure Pipeline where
  expr : Expr
  filters : List FilterCall := []

/-- An output of a template. -/
structure Output where
  pipeline : Pipeline
  markup : String
  line : Option Nat

namespace FilterCall

/-- Adds one argument, given as text; it is a keyword argument when it is an attribute. -/
def addArgument (call : FilterCall) (argument : List Char) : Outcome FilterCall :=
  match Fragment.wholeAttribute? (Text.trim argument) with
  | some (key, value) => do
    return { call with kwargs := call.kwargs ++ [(String.ofList key, ← Expr.read value)] }
  | none => do return { call with args := call.args ++ [← Expr.read argument] }

/-- A filter with arguments given as text. -/
def ofArguments (name : List Char) (arguments : List (List Char)) : Outcome FilterCall :=
  arguments.foldlM addArgument { name := String.ofList name }

end FilterCall

namespace Pipeline

/-! ### The tolerant grammar -/

/-- Reads the filters in stretches of a pipeline; a stretch without a word is passed over. -/
def readStretches : List (List Char) → Outcome (List FilterCall)
  | [] => .ok []
  | stretch :: rest =>
    match Fragment.firstWord? stretch with
    | none => readStretches rest
    | some name => do
      let call ← FilterCall.ofArguments name (Fragment.arguments stretch)
      return call :: (← readStretches rest)

/-- What follows the first bar in a text. -/
def afterBar? : List Char → Option (List Char)
  | [] => none
  | c :: rest => if c == '|' then some (Text.trimLeft rest) else afterBar? rest

/-- Reads a pipeline tolerantly. -/
def readLax (markup : List Char) : Outcome Pipeline :=
  match Fragment.first? markup with
  | none => .ok { expr := .value .nil }
  | some (expr, rest) => do
    let expr ← Expr.read expr
    match afterBar? rest with
    | none => return { expr }
    | some filters => return { expr, filters := ← readStretches (Fragment.stretches filters) }

/-! ### The strict grammar -/

/-- Reads further arguments of a filter, each after a comma. -/
def readArguments : Nat → Grammar.Rest → Outcome (List (List Char) × Grammar.Rest)
  | 0, ls => .ok ([], ls)
  | fuel + 1, ls =>
    match Grammar.take? .comma ls with
    | none => .ok ([], ls)
    | some (_, rest) => do
      let (argument, rest) ← Grammar.argument rest |>.mapError (·.complaint.toFailure)
      let (more, rest) ← readArguments fuel rest
      return (argument :: more, rest)

/-- Reads the arguments of a filter, if a colon announces them. -/
def readArgumentList (ls : Grammar.Rest) : Outcome (List (List Char) × Grammar.Rest) :=
  match Grammar.take? .colon ls with
  | none => .ok ([], ls)
  | some (_, rest) => do
    let (first, rest) ← Grammar.argument rest |>.mapError (·.complaint.toFailure)
    let (more, rest) ← readArguments rest.length rest
    return (first :: more, rest)

/-- Reads filters, each after a bar; every step takes at least one lexeme. -/
def readFilters : Nat → Grammar.Rest → Outcome (List FilterCall × Grammar.Rest)
  | 0, ls => .ok ([], ls)
  | fuel + 1, ls =>
    match Grammar.take? .pipe ls with
    | none => .ok ([], ls)
    | some (_, rest) => do
      let (name, rest) ← Grammar.take .identifier rest |>.mapError (·.complaint.toFailure)
      let (arguments, rest) ← readArgumentList rest
      let call ← FilterCall.ofArguments name arguments
      let (more, rest) ← readFilters fuel rest
      return (call :: more, rest)

/-- Reads a pipeline strictly. -/
def readStrict (markup : List Char) : Outcome Pipeline := do
  let ls ← Grammar.lexemes markup |>.mapError Complaint.toFailure
  if Grammar.currentKind ls == .ending then return { expr := .value .nil }
  let (expr, rest) ← Grammar.expression ls |>.mapError (·.complaint.toFailure)
  let expr ← Expr.read expr
  let (filters, rest) ← readFilters rest.length rest
  let _ ← Grammar.take .ending rest |>.mapError (·.complaint.toFailure)
  return { expr, filters }

end Pipeline

end Stencil
