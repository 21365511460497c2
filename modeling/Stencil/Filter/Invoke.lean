import Stencil.Filter.OnItems
import Stencil.Filter.OnNumber
import Stencil.Filter.OnText
import Stencil.Render.Evaluation
import Stencil.Text.Case
import Stencil.Tree.Pipeline

/-!
Applying filters in a render. What a filter refuses because of a wrong type or value is reported as a
bad argument of that filter.
-/

namespace Stencil

namespace BuiltinFilter

open Render

/-- The characters of the output form of a value. -/
def charsOf (v : Value) : Render (List Char) := do
  return (← ofOutcome (v.output (← loops))).toList

/-- A value made of characters. -/
def ofChars (s : List Char) : Value := .str (String.ofList s)

/-- The number a value stands for. -/
def numberOf (v : Value) : Render Numeric := do ofOutcome (v.toNumber (← loops))

/-- The whole number a value stands for. -/
def intOf (v : Value) : Render Int := do ofOutcome (v.toInt (← loops))

/-- A filter on text. -/
def onText (f : List Char → List Char) (v : Value) : Render Value := do
  return ofChars (f (← charsOf v))

/-- A filter on two numbers. -/
def onNumbers (f : Numeric → Numeric → Outcome Numeric) (v w : Value) : Render Value := do
  let a ← numberOf v
  let b ← numberOf w
  return (← ofOutcome (f a b)).toValue

/-- The property of an item under a key. Stored values are taken as they are, and a host object is asked
without being bound first. -/
def property (key item : Value) : Render Value := do
  match item with
  | .drop .. | .loop _ =>
    ask .item item key
    resolve item key
  | .map es => return (← ofOutcome (Value.entry? es key)).getD .nil
  | _ => return .nil

/-- The items with the keys they are sorted by: themselves, or a property. -/
def keyed (key : Value) (items : List Value) : Render (List Value.Keyed) :=
  match key with
  | .nil => return items.map fun item => ⟨item, item⟩
  | key => items.mapM fun item => do return ⟨← property key item, item⟩

/-- Whether a value is true itself. -/
def isTrue : Value → Bool
  | .bool b => b
  | _ => false

/-- Applies a filter to a value and all its arguments. -/
def apply (f : BuiltinFilter) (v : Value) (args : List Value) : Render Value := do
  match f, args with
  | .abs, _ => return (← numberOf v).abs.toValue
  | .append, [suffix] => return ofChars ((← charsOf v) ++ (← charsOf suffix))
  | .prepend, [front] =>
    let front ← charsOf front
    return ofChars (front ++ (← charsOf v))
  | .atLeast, [bound] => onNumbers (fun a b => .ok (Filter.atLeast a b)) v bound
  | .atMost, [bound] => onNumbers (fun a b => .ok (Filter.atMost a b)) v bound
  | .capitalize, _ => onText Text.capitalize v
  | .downcase, _ => onText Text.lower v
  | .upcase, _ => onText Text.upper v
  | .strip, _ => onText Text.trim v
  | .lstrip, _ => onText Text.trimLeft v
  | .rstrip, _ => onText Text.trimRight v
  | .default, [fallback, allowFalse] =>
    if ← ofOutcome (Filter.isMissing (isTrue allowFalse) v) then return fallback else return v
  | .dividedBy, [other] => onNumbers Filter.dividedBy v other
  | .modulo, [other] => onNumbers Filter.modulo v other
  | .plus, [other] => onNumbers Numeric.add v other
  | .minus, [other] => onNumbers Numeric.sub v other
  | .times, [other] => onNumbers Numeric.mul v other
  | .round, [digits] =>
    let places ← intOf digits
    return (← ofOutcome (Filter.round places (← numberOf v))).toValue
  | .escape, _ =>
    match v with
    | .nil => return .nil
    | v => onText Filter.escape v
  | .first, _ => return (← ofOutcome (Filter.members v)).headD .nil
  | .last, _ => return (← ofOutcome (Filter.members v)).getLastD .nil
  | .join, [glue] =>
    let glue ← charsOf glue
    return ofChars (Text.joined glue (← (← ofOutcome (Filter.items v)).mapM charsOf))
  | .reverse, _ => return .list (← ofOutcome (Filter.items v)).reverse
  | .size, _ => return .int (← ofOutcome (Filter.size v))
  | .sort, [key] => do
    let ks ← keyed key (← ofOutcome (Filter.items v))
    return .list (← ofOutcome (Filter.sortKeyed ks))
  | .map, [key] => return .list (← (← ofOutcome (Filter.items v)).mapM (property key))
  | .uniq, _ => return .list (Filter.uniq (← ofOutcome (Filter.items v)))
  | .split, [separator] =>
    let s ← charsOf v
    return .list ((Filter.split (← charsOf separator) s).map ofChars)
  | .replace, [old, new] =>
    let s ← charsOf v
    let old ← charsOf old
    return ofChars (Text.replaceAll old (← charsOf new) s)
  | .remove, [part] =>
    let s ← charsOf v
    return ofChars (Text.replaceAll (← charsOf part) [] s)
  | .truncate, [length, mark] =>
    let s ← charsOf v
    let mark ← charsOf mark
    return ofChars (Filter.truncate (← intOf length) mark s)
  | _, _ => return v

/-- The name a built-in filter has in complaints about its arguments. -/
def function (f : BuiltinFilter) : String := "_filter_" ++ f.name ++ "()"

end BuiltinFilter

namespace HostFilter

open Render

/-- Keyword arguments in the order of their names. -/
def sortedKeywords (kwargs : Named Value) : Named Value :=
  kwargs.mergeSort fun a b => a.1 ≤ b.1

/-- Applies a filter to a value and its arguments. -/
def apply (f : HostFilter) (v : Value) (args : List Value) (kwargs : Named Value) :
    Render Value := do
  let text (w : Value) : Render String := do ofOutcome (w.output (← loops))
  match f with
  | .shout => return .str ((← text v) ++ "!")
  | .echo =>
    let value ← text v
    let parts ← args.mapM text
    let named ← (sortedKeywords kwargs).mapM fun (key, w) => do
      return ";" ++ key ++ "=" ++ (← text w)
    return .str (value ++ "(" ++ ",".intercalate parts ++ String.join named ++ ")")
  | .constant result => return result
  | .failing failure => throw failure
  | .templateName => return ((← read).templateName.map Value.str).getD .nil
  | .lookup => findNamed v
  | .render =>
    let (result, notices) := (← read).subrender (← text v)
    modify fun s => { s with notices := s.notices ++ notices }
    return .str (← ofOutcome result)
  | .custom g => ofOutcome (g v args kwargs)

end HostFilter

namespace Filter

open Render

/-- Applies a filter to a value and its arguments. -/
def apply (f : Filter) (v : Value) (args : List Value) (kwargs : Named Value) :
    Render Value := do
  match f with
  | .builtin f => f.apply v (← ofOutcome (Parameters.bind f.function f.parameters args kwargs))
  | .host f => f.apply v args kwargs

/-- A refusal because of a wrong type or value as a bad argument of a filter. -/
def blame (name : String) : Failure → Failure
  | .host ⟨.badType, text⟩ | .host ⟨.badValue, text⟩ =>
    .template (.badArgument (name ++ ": " ++ text))
  | failure => failure

/-- Names that no keyword argument can have. -/
def reservedKeywords : List String := ["self", "filter_name", "value"]

/-- What a filter that is not registered gives: an error when filters are strict, else the value. -/
def unregistered (name : String) (v : Value) : Render Value := do
  if (← read).strictFilters then fail (.undefinedFilter name) else return v

/-- Applies the filter of a name. -/
def invoke (name : String) (v : Value) (args : List Value) (kwargs : Named Value) :
    Render Value := do
  match kwargs.find? fun entry => reservedKeywords.contains entry.1 with
  | some (key, _) =>
    throw (.badType ("invoke() got multiple values for argument '" ++ key ++ "'"))
  | none =>
    match (← read).filters.get? name with
    | none => unregistered name v
    | some f => tryCatch (f.apply v args kwargs) fun failure => throw (blame name failure)

end Filter

namespace FilterCall

/-- Applies a call to a value; of equal keywords the first stays with the last value. -/
def apply (call : FilterCall) (v : Value) : Render Value := do
  let args ← call.args.mapM Expr.evaluate
  let kwargs ← call.kwargs.mapM fun (key, e) => do return (key, ← e.evaluate)
  Filter.invoke call.name v args (Named.putAll [] kwargs)

end FilterCall

namespace Pipeline

/-- The value of a pipeline. -/
def evaluate (p : Pipeline) : Render Value := do
  p.filters.foldlM (fun v call => call.apply v) (← p.expr.evaluate)

end Pipeline

end Stencil
