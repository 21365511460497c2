import Stencil.Markup.Complaint

/-!
The strict grammar of expressions, over lexemes. Reading an expression gives its normal form: the
lexemes it is made of, written without the blanks between them.
-/

namespace Stencil.Grammar

/-- What is left of a markup while it is read. -/
abbrev Rest := List Lexeme

/-- A complaint, with what was left of the markup when it arose. -/
structure Refusal where
  complaint : Complaint
  rest : Rest

/-- The result of reading: text and what is left, or a refusal. -/
abbrev Reading := Except Refusal (List Char × Rest)

/-- The lexeme at the front. -/
def current : Rest → Lexeme
  | [] => .ending
  | l :: _ => l

/-- The kind of the lexeme at the front. -/
def currentKind (ls : Rest) : Lexeme.Kind := (current ls).kind

/-- Takes a lexeme of a given kind. -/
def take (wanted : Lexeme.Kind) (ls : Rest) : Reading :=
  if currentKind ls == wanted then .ok ((current ls).chars, ls.tail)
  else .error ⟨.expected wanted (currentKind ls), ls⟩

/-- Takes a lexeme of a given kind if it is there. -/
def take? (wanted : Lexeme.Kind) (ls : Rest) : Option (List Char × Rest) :=
  if currentKind ls == wanted then some ((current ls).chars, ls.tail) else none

/-- Takes an identifier if it is the given word. -/
def word? (word : String) (ls : Rest) : Option (List Char × Rest) :=
  if current ls == ⟨.identifier, word.toList⟩ then some (word.toList, ls.tail) else none

/-- Whether the lexeme some places ahead is of a kind. -/
def looksAt (kind : Lexeme.Kind) (ahead : Nat) (ls : Rest) : Bool :=
  (ls[ahead]?).any (·.kind == kind)

mutual

/-- Reads an expression; every step takes at least one lexeme. -/
def expressionWithin (fuel : Nat) (ls : Rest) : Reading :=
  match fuel with
  | 0 => .error ⟨.notAnExpression (current ls), ls⟩
  | fuel + 1 =>
    match ls with
    | [] => .error ⟨.notAnExpression .ending, []⟩
    | l :: rest =>
      match l.kind with
      | .identifier => do
        let (path, rest) ← lookupsWithin fuel rest
        return (l.chars ++ path, rest)
      | .openSquare => do
        let (inner, rest) ← expressionWithin fuel rest
        let (close, rest) ← take .closeSquare rest
        let (path, rest) ← lookupsWithin fuel rest
        return (l.chars ++ inner ++ close ++ path, rest)
      | .string | .number => .ok (l.chars, rest)
      | .openRound => do
        let (first, rest) ← expressionWithin fuel rest
        let (_, rest) ← take .dotdot rest
        let (last, rest) ← expressionWithin fuel rest
        let (_, rest) ← take .closeRound rest
        return ('(' :: first ++ '.' :: '.' :: last ++ [')'], rest)
      | _ => .error ⟨.notAnExpression l, l :: rest⟩

/-- Reads the steps of a path. -/
def lookupsWithin (fuel : Nat) (ls : Rest) : Reading :=
  match fuel with
  | 0 => .ok ([], ls)
  | fuel + 1 =>
    match ls with
    | [] => .ok ([], [])
    | l :: rest =>
      match l.kind with
      | .openSquare => do
        let (inner, rest) ← expressionWithin fuel rest
        let (close, rest) ← take .closeSquare rest
        let (path, rest) ← lookupsWithin fuel rest
        return (l.chars ++ inner ++ close ++ path, rest)
      | .dot => do
        let (name, rest) ← take .identifier rest
        let (path, rest) ← lookupsWithin fuel rest
        return (l.chars ++ name ++ path, rest)
      | _ => .ok ([], l :: rest)

end

/-- Reads an expression. -/
def expression (ls : Rest) : Reading :=
  expressionWithin (ls.length + 1) ls

/-- Reads the steps of a path. -/
def lookups (ls : Rest) : Reading := lookupsWithin (ls.length + 1) ls

/-- Reads an identifier and the steps of its path. -/
def signature (ls : Rest) : Reading := do
  let (name, rest) ← take .identifier ls
  let (path, rest) ← lookups rest
  return (name ++ path, rest)

/-- Reads an argument of a filter, which may have a keyword. -/
def argument (ls : Rest) : Reading := do
  if looksAt .identifier 0 ls && looksAt .colon 1 ls then
    let (value, rest) ← expression (ls.drop 2)
    return ((current ls).chars ++ (current ls.tail).chars ++ ' ' :: value, rest)
  expression ls

/-- The lexemes of a markup. -/
def lexemes (markup : List Char) : Except Complaint Rest :=
  (Lexeme.scan markup).mapError .unexpectedCharacter

end Stencil.Grammar
