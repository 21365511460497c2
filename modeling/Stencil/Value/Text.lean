import Stencil.Text.Quoted
import Stencil.Value.LoopInfo
import Stencil.Value.Number

/-!
Text of values. There are three forms: how a value is shown inside a collection, how it is written on
its own, and what it puts into the output of a template.
-/

namespace Stencil.Value

open Text

/-- A whole number as text. -/
def intText (n : Int) : Outcome String :=
  match Number.intText? n with
  | some s => .ok s
  | none => .error .tooManyDigits

/-- A range as text. -/
def spanText (r : Span) : Outcome String := do
  let start ← intText r.start
  let stop ← intText r.stop
  if r.step == 1 then return "range(" ++ start ++ ", " ++ stop ++ ")"
  return "range(" ++ start ++ ", " ++ stop ++ ", " ++ (← intText r.step) ++ ")"

/-- The text of a host object. -/
def hostText (loops : Loops) : Value → String
  | .sealed _ s => s
  | .version n => "v" ++ toString n
  | .drop _ d => "<" ++ d.name ++ ">"
  | .loop i => match loops[i]? with
    | some info => info.text
    | none => "<loop>"
  | .function .. => "<function>"
  | .proxy .. => "<proxy>"
  | _ => ""

mutual

/-- How a value is shown inside a collection. -/
def shown (loops : Loops) (v : Value) : Outcome String :=
  match v with
  | .nil => .ok "None"
  | .bool b => .ok (if b then "True" else "False")
  | .int n => intText n
  | .float x => .ok x.text
  | .str s => .ok (quoted s)
  | .list xs => do return "[" ++ ", ".intercalate (← shownAll loops xs) ++ "]"
  | .tuple xs => do
    match ← shownAll loops xs with
    | [one] => return "(" ++ one ++ ",)"
    | parts => return "(" ++ ", ".intercalate parts ++ ")"
  | .range r => spanText r
  | .map es => do return "\x7b" ++ ", ".intercalate (← shownEntries loops es) ++ "\x7d"
  | .literal l => .ok ("MethodLiteral(method_name='" ++ l.name ++ "')")
  | .function i f => .ok (hostText loops (.function i f))
  | .proxy i w => .ok (hostText loops (.proxy i w))
  | .sealed i s => .ok (hostText loops (.sealed i s))
  | .version n => .ok (hostText loops (.version n))
  | .drop i d => .ok (hostText loops (.drop i d))
  | .loop i => .ok (hostText loops (.loop i))

/-- How the items of a collection are shown. -/
def shownAll (loops : Loops) (xs : List Value) : Outcome (List String) :=
  match xs with
  | [] => .ok []
  | x :: xs => do
    let s ← shown loops x
    return s :: (← shownAll loops xs)

/-- How the entries of a mapping are shown. -/
def shownEntries (loops : Loops) (es : List (Value × Value)) : Outcome (List String) :=
  match es with
  | [] => .ok []
  | (k, v) :: es => do
    let key ← shown loops k
    let value ← shown loops v
    return (key ++ ": " ++ value) :: (← shownEntries loops es)

end

/-- A value written on its own: a text as it is, a pseudo-literal as nothing. -/
def written (loops : Loops) (v : Value) : Outcome String :=
  match v with
  | .str s => .ok s
  | .literal _ => .ok ""
  | v => shown loops v

mutual

/-- What a value puts into the output: nothing for nil, a range by its ends, other sequences item by
item. -/
def output (loops : Loops) (v : Value) : Outcome String :=
  match v with
  | .nil => .ok ""
  | .bool b => .ok (if b then "true" else "false")
  | .list xs => outputAll loops xs
  | .tuple xs => outputAll loops xs
  | .range r =>
    if r.step == 1 then do
      let first ← intText r.start
      return first ++ ".." ++ (← intText (r.stop - 1))
    else do
      let parts ← (List.range r.count).mapM fun i => intText (r.get i)
      return String.join parts
  | .int n => intText n
  | .float x => .ok x.text
  | .str s => .ok s
  | .map es => written loops (.map es)
  | .literal _ => .ok ""
  | .function i f => .ok (hostText loops (.function i f))
  | .proxy i w => .ok (hostText loops (.proxy i w))
  | .sealed i s => .ok (hostText loops (.sealed i s))
  | .version n => .ok (hostText loops (.version n))
  | .drop i d => .ok (hostText loops (.drop i d))
  | .loop i => .ok (hostText loops (.loop i))

/-- What a sequence puts into the output. -/
def outputAll (loops : Loops) (xs : List Value) : Outcome String :=
  match xs with
  | [] => .ok ""
  | x :: xs => do
    let s ← output loops x
    return s ++ (← outputAll loops xs)

end

end Stencil.Value
