import Stencil.Markup.Grammar

/-!
A cursor over the lexemes of a markup, for reading by hand. The position may be moved freely:
behind the end stands the ending, and negative positions count from the end.
-/

namespace Stencil

/-- The lexemes of a markup and a position among them. -/
structure Cursor where
  lexemes : List Lexeme
  position : Int := 0

namespace Cursor

/-- A cursor at the start of a markup. -/
def ofMarkup (markup : List Char) : Outcome Cursor :=
  match Grammar.lexemes markup with
  | .ok lexemes => .ok { lexemes }
  | .error c => complain c

/-- The lexeme at an index, counted from the end when the index is negative. -/
def lexemeAt (c : Cursor) (index : Int) : Outcome Lexeme :=
  let i := if index < 0 then index + c.lexemes.length else index
  if i < 0 then .error (.host ⟨.outOfRange, "before the first lexeme"⟩)
  else match c.lexemes[i.toNat]? with
    | some l => .ok l
    | none => .error (.host ⟨.outOfRange, "behind the last lexeme"⟩)

/-- The current lexeme. -/
def current (c : Cursor) : Outcome Lexeme :=
  c.lexemeAt (min c.position (c.lexemes.length - 1))

/-- Moves by a number of lexemes. -/
def advance (c : Cursor) (count : Nat) : Cursor := { c with position := c.position + count }

/-- Takes the current lexeme, of a given kind if one is asked for. -/
def consume (c : Cursor) (wanted : Option Lexeme.Kind) : Outcome (String × Cursor) := do
  let l ← c.current
  match wanted with
  | some kind =>
    if l.kind == kind then return (l.text, c.advance 1)
    complain (.expected kind l.kind)
  | none => return (l.text, c.advance 1)

/-- Takes the current lexeme if it is of a kind. -/
def consumeOptional (c : Cursor) (kind : Lexeme.Kind) : Outcome (Option String × Cursor) := do
  let l ← c.current
  return if l.kind == kind then (some l.text, c.advance 1) else (none, c)

/-- Takes the current lexeme if it is a given identifier. -/
def consumeWord (c : Cursor) (word : String) : Outcome (Option String × Cursor) := do
  let l ← c.current
  return if l == ⟨.identifier, word.toList⟩ then (some word, c.advance 1) else (none, c)

/-- Whether the lexeme some places ahead is of a kind. -/
def looksAt (c : Cursor) (kind : Lexeme.Kind) (ahead : Int) : Outcome Bool := do
  let index := c.position + ahead
  if (c.lexemes.length : Int) ≤ index then return false
  return (← c.lexemeAt index).kind == kind

/-- The lexemes from the position on; from a negative position the end is followed by the start. -/
def view (c : Cursor) : List Lexeme :=
  if c.position < 0 then
    c.lexemes.drop (c.position + c.lexemes.length).toNat ++ c.lexemes
  else c.lexemes.drop c.position.toNat

/-- Moves to where reading left off. -/
def moveTo (c : Cursor) (rest : List Lexeme) : Cursor :=
  c.advance (c.view.length - rest.length)

/-- Reads with the strict grammar from the position on; a refusal leaves the cursor where it arose. -/
def read (c : Cursor) (reader : Grammar.Rest → Grammar.Reading) : Outcome String × Cursor :=
  match c.current with
  | .error e => (.error e, c)
  | .ok _ =>
    match reader c.view with
    | .error r => (complain r.complaint, c.moveTo r.rest)
    | .ok (text, rest) => (.ok (String.ofList text), c.moveTo rest)

end Cursor

end Stencil
