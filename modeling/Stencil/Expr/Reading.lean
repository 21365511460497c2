import Stencil.Expr.Basic
import Stencil.Markup.Lexeme
import Stencil.Value.Convert

/-!
Reading an expression. What the text is taken for is decided in this order: a literal word, a quoted
string, a whole number, a range, a floating-point number, and a variable path for all the rest.
-/

namespace Stencil.Expr

open Text

/-- The value of a literal word; nothing at all is nil. -/
def literalWord? (s : List Char) : Option Value :=
  if s.isEmpty then some .nil
  else match String.ofList s with
    | "nil" | "null" => some .nil
    | "true" => some (.bool true)
    | "false" => some (.bool false)
    | "blank" => some (.literal .blank)
    | "empty" => some (.literal .empty)
    | _ => none

/-- The content of a text that starts and ends with the same quote. -/
def quotedContent? (s : List Char) : Option (List Char) :=
  match s with
  | [] => none
  | q :: rest =>
    if q == '\'' || q == '"' then
      match rest.getLast? with
      | some last => if last == q then some rest.dropLast else none
      | none => none
    else none

/-- Whether a text is a whole number: an optional minus sign and digits. -/
def isWholeNumber : List Char → Bool
  | '-' :: rest => !rest.isEmpty && rest.all isDecimal
  | s => !s.isEmpty && s.all isDecimal

/-- Cuts a text at its last two dots that have something behind them. -/
def cutDots? : List Char → Option (List Char × List Char)
  | [] => none
  | c :: rest =>
    match cutDots? rest with
    | some (before, after) => some (c :: before, after)
    | none =>
      match c, rest with
      | '.', '.' :: d :: after => some ([], d :: after)
      | _, _ => none

/-- The ends of a range in parentheses, which holds no blanks. -/
def rangeEnds? (s : List Char) : Option (List Char × List Char) :=
  match s, s.getLast? with
  | '(' :: rest, some ')' =>
    let body := rest.dropLast
    if body.any isBlank then none
    else (cutDots? body).filter fun (first, _) => !first.isEmpty
  | _, _ => none

/-- The number a text starts with, when nothing but digits and points follows it. -/
def leadingNumber? (s : List Char) : Option (List Char) :=
  match Lexeme.number? s with
  | some (number, rest) =>
    if rest.all fun c => isDecimal c || c == '.' then some number else none
  | none => none

/-- The content of brackets at the front of a text, and what follows them. Brackets may hold other
brackets, which end at the first closing one; `inside` says whether such a pair is open. -/
def bracketed? (inside : Bool) : List Char → Option (List Char × List Char)
  | [] => none
  | c :: rest =>
    if c == ']' && !inside then some ([], rest)
    else
      let opens := inside && c != ']' || !inside && c == '['
      (bracketed? opens rest).map fun (content, after) => (c :: content, after)

/-- A part of a path: a name, or the content of brackets. -/
inductive Part where
  | name (s : List Char)
  | index (content : List Char)

/-- A name at the front of a text, with an optional question mark. -/
def pathName? (s : List Char) : Option (List Char × List Char) :=
  let name := s.takeWhile isNameChar
  if name.isEmpty then none
  else match s.dropWhile isNameChar with
    | '?' :: after => some (name ++ ['?'], after)
    | after => some (name, after)

/-- The parts of a path; whatever is neither a name nor in brackets is passed over. -/
def partsWithin : Nat → List Char → List Part
  | 0, _ => []
  | _ + 1, [] => []
  | fuel + 1, c :: rest =>
    let brackets := if c == '[' then bracketed? false rest else none
    match brackets with
    | some (content, after) => .index content :: partsWithin fuel after
    | none =>
      match pathName? (c :: rest) with
      | some (name, after) => .name name :: partsWithin fuel after
      | none => partsWithin fuel rest

/-- The parts of a path. -/
def parts (s : List Char) : List Part := partsWithin s.length s

/-- A part of a path as a step, given how the content of brackets is read. -/
def Part.toStep (read : List Char → Outcome Expr) : Part → Outcome Step
  | .name s => .ok (.name (String.ofList s))
  | .index content => (read content).map .index

/-- A part of a path as a root. -/
def Part.toRoot (read : List Char → Outcome Expr) : Part → Outcome Expr
  | .name s => .ok (.value (.str (String.ofList s)))
  | .index content => read content

/-- The range between two expressions: at once when both are values, else in a render. -/
def between (first last : Expr) : Outcome Expr :=
  match first, last with
  | .value v, .value w =>
    if first.isDeferred || last.isDeferred then .ok (.range first last)
    else do
      let start ← v.toInt #[]
      let stop ← w.toInt #[]
      return .value (.range (.inclusive start stop))
  | _, _ => .ok (.range first last)

/-- Reads an expression; every inner one is shorter. -/
def readWithin : Nat → List Char → Outcome Expr
  | 0, _ => .ok (.value .nil)
  | fuel + 1, text =>
    let s := trim text
    match literalWord? s with
    | some v => .ok (.value v)
    | none =>
    match quotedContent? s with
    | some content => .ok (.value (.str (String.ofList content)))
    | none =>
    if isWholeNumber s then
      ((Number.readInt s).mapError (Value.numeralFailure s)).map fun n => .value (.int n)
    else
    match rangeEnds? s with
    | some (first, last) => do between (← readWithin fuel first) (← readWithin fuel last)
    | none =>
    match (leadingNumber? s).bind (Number.readBinary 0) with
    | some x => .ok (.value (.float x))
    | none =>
      match parts s with
      | [] => .ok (.lookup (.value .nil) [])
      | root :: path => do
        let root ← root.toRoot (readWithin fuel)
        let path ← path.mapM (Part.toStep (readWithin fuel))
        return .lookup root path

/-- Reads an expression. -/
def read (s : List Char) : Outcome Expr := readWithin (s.length + 1) s

end Stencil.Expr
