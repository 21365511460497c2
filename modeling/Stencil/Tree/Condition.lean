import Stencil.Expr.Reading
import Stencil.Markup.Fragment
import Stencil.Markup.Grammar

/-!
Conditions: comparisons joined by words. Chains are read from left to right and all words bind alike.
Both grammars are here; the tolerant one cuts the markup into fragments and the strict one reads
lexemes.
-/

namespace Stencil

/-- A comparison, or a single expression that is tested for truth when there is no operator. -/
structure Comparison where
  left : Expr
  operator : Option String := none
  right : Expr := .value .nil

/-- Comparisons joined by words. -/
inductive Condition where
  | single (c : Comparison)
  | joined (c : Comparison) (relation : String) (rest : Condition)

namespace Condition

/-- The first comparison. -/
def head : Condition → Comparison
  | .single c => c
  | .joined c _ _ => c

/-- The comparisons with the word behind each. -/
def links : Condition → List (Comparison × Option String)
  | .single c => [(c, none)]
  | .joined c relation rest => (c, some relation) :: rest.links

/-- Appends a condition at the end of a chain. -/
def chain (c : Condition) (relation : String) (new : Condition) : Condition :=
  match c with
  | .single c => .joined c relation new
  | .joined c r rest => .joined c r (rest.chain relation new)

/-- Joins comparisons by words, in order. Counting from the end, each word stands between two
comparisons; comparisons in front of the first word are left out. -/
def link? (comparisons : List Comparison) (relations : List String) : Option Condition :=
  match comparisons.reverse with
  | [] => none
  | last :: earlier =>
    some ((earlier.zip relations.reverse).foldl
      (fun rest (c, relation) => .joined c relation rest) (.single last))

/-- Joins a first comparison with the following ones. -/
def ofLinks (first : Comparison) : List (String × Comparison) → Condition
  | [] => .single first
  | (relation, next) :: rest => .joined first relation (ofLinks next rest)

/-! ### The tolerant grammar -/

/-- Reads one comparison from a fragment of a condition. -/
def readFragment (tag : String) (fragment : List Char) : Outcome Comparison :=
  match Fragment.comparison? fragment with
  | none => complain (.condition tag)
  | some (left, operator, right) => do
    let left ← Expr.read left
    let right ← match right with
      | some right => Expr.read right
      | none => .ok (.value .nil)
    return { left, operator := operator.map String.ofList, right }

/-- Reads words and comparisons in turn. -/
def readLinks (tag : String) : List (List Char) → Outcome (List (String × Comparison))
  | [] => .ok []
  | [_] => complain (.condition tag)
  | word :: fragment :: rest => do
    if word != ['a', 'n', 'd'] && word != ['o', 'r'] then complain (.condition tag)
    else
      let comparison ← readFragment tag fragment
      return (String.ofList word, comparison) :: (← readLinks tag rest)

/-- Reads a condition tolerantly. -/
def readLax (tag : String) (markup : List Char) : Outcome Condition :=
  match Fragment.conditions markup with
  | [] => complain (.condition tag)
  | first :: rest => do
    let head ← readFragment tag first
    return ofLinks head (← readLinks tag rest)

/-! ### The strict grammar -/

/-- Reads one comparison from lexemes. -/
def readComparison (ls : Grammar.Rest) : Outcome (Comparison × Grammar.Rest) := do
  let (left, rest) ← Grammar.expression ls |>.mapError (·.complaint.toFailure)
  let left ← Expr.read left
  match Grammar.take? .comparison rest with
  | none => return ({ left }, rest)
  | some (operator, rest) =>
    let (right, rest) ← Grammar.expression rest |>.mapError (·.complaint.toFailure)
    return ({ left, operator := some (String.ofList operator), right := ← Expr.read right }, rest)

/-- Reads words and comparisons up to the ending; every step takes at least one lexeme. -/
def readComparisons : Nat → Grammar.Rest → Outcome (List (String × Comparison))
  | 0, _ => .ok []
  | fuel + 1, ls =>
    match (Grammar.word? "and" ls).or (Grammar.word? "or" ls) with
    | some (word, rest) => do
      let (next, rest) ← readComparison rest
      return (String.ofList word, next) :: (← readComparisons fuel rest)
    | none => do
      let _ ← Grammar.take .ending ls |>.mapError (·.complaint.toFailure)
      return []

/-- Reads a condition strictly. -/
def readStrict (markup : List Char) : Outcome Condition := do
  let ls ← Grammar.lexemes markup |>.mapError Complaint.toFailure
  let (first, rest) ← readComparison ls
  return ofLinks first (← readComparisons (rest.length + 1) rest)

end Condition

end Stencil
