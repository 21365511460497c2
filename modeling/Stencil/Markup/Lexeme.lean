import Stencil.Text.Blank
import Stencil.Text.Digit
import Stencil.Text.Quoted
import Stencil.Text.Word

/-!
Lexemes: the words of the markup inside one tag or output, as the strict grammar reads them. Blanks
between lexemes are skipped; quoted strings keep their quotes and know no escapes.
-/

namespace Stencil

open Text

namespace Lexeme

/-- The kinds of lexemes. -/
inductive Kind where
  | comparison | string | number | identifier | dotdot | pipe | dot | colon | comma
  | openSquare | closeSquare | openRound | closeRound | question | dash | ending
  deriving DecidableEq

namespace Kind

/-- Every kind, in the order in which they are tried. -/
def all : List Kind :=
  [.comparison, .string, .number, .identifier, .dotdot, .pipe, .dot, .colon, .comma, .openSquare,
    .closeSquare, .openRound, .closeRound, .question, .dash, .ending]

/-- The name of a kind in messages. -/
def name : Kind → String
  | .comparison => "comparison"
  | .string => "string"
  | .number => "number"
  | .identifier => "id"
  | .dotdot => "dotdot"
  | .pipe => "pipe"
  | .dot => "dot"
  | .colon => "colon"
  | .comma => "comma"
  | .openSquare => "open_square"
  | .closeSquare => "close_square"
  | .openRound => "open_round"
  | .closeRound => "close_round"
  | .question => "question"
  | .dash => "dash"
  | .ending => "end_of_string"

/-- The kind of a name. -/
def ofName? (s : String) : Option Kind := all.find? (·.name == s)

/-- The kind of a single character that is a lexeme of its own. -/
def ofChar? : Char → Option Kind
  | '|' => some .pipe
  | '.' => some .dot
  | ':' => some .colon
  | ',' => some .comma
  | '[' => some .openSquare
  | ']' => some .closeSquare
  | '(' => some .openRound
  | ')' => some .closeRound
  | '?' => some .question
  | '-' => some .dash
  | _ => none

end Kind

end Lexeme

/-- A word of markup; the last one of a markup is its ending, with no characters. -/
structure Lexeme where
  kind : Lexeme.Kind
  chars : List Char
  deriving DecidableEq

namespace Lexeme

/-- The ending of a markup. -/
def ending : Lexeme := ⟨.ending, []⟩

/-- The lexeme as text. -/
def text (l : Lexeme) : String := String.ofList l.chars

/-- How a message shows a lexeme. -/
def shown (l : Lexeme) : String := "LexToken(" ++ l.kind.name ++ ", " ++ quoted l.text ++ ")"

/-! ### Reading one lexeme

Each reader takes a lexeme of its kind off the front of a text and gives what follows. -/

/-- The word that tests membership, when a blank follows it. -/
def containsWord : List Char := ['c', 'o', 'n', 't', 'a', 'i', 'n', 's']

/-- A comparison operator. -/
def comparison? : List Char → Option (List Char × List Char)
  | '=' :: '=' :: rest => some (['=', '='], rest)
  | '!' :: '=' :: rest => some (['!', '='], rest)
  | '<' :: '>' :: rest => some (['<', '>'], rest)
  | '<' :: '=' :: rest => some (['<', '='], rest)
  | '<' :: rest => some (['<'], rest)
  | '>' :: '=' :: rest => some (['>', '='], rest)
  | '>' :: rest => some (['>'], rest)
  | s =>
    if containsWord.isPrefixOf s then
      let rest := s.drop containsWord.length
      if rest.head?.any isBlank then some (containsWord, rest) else none
    else none

/-- A quoted string: everything up to the next quote of the same kind. -/
def quoted? : List Char → Option (List Char × List Char)
  | [] => none
  | q :: rest =>
    if q == '\'' || q == '"' then
      match rest.dropWhile (· != q) with
      | _ :: after => some (q :: rest.takeWhile (· != q) ++ [q], after)
      | [] => none
    else none

/-- Digits, and a point with digits after it. -/
def unsigned? (s : List Char) : Option (List Char × List Char) :=
  let digits := s.takeWhile isDecimal
  if digits.isEmpty then none
  else
    match s.dropWhile isDecimal with
    | '.' :: after =>
      let part := after.takeWhile isDecimal
      if part.isEmpty then some (digits, '.' :: after)
      else some (digits ++ '.' :: part, after.dropWhile isDecimal)
    | rest => some (digits, rest)

/-- A number with an optional minus sign. -/
def number? : List Char → Option (List Char × List Char)
  | '-' :: rest => (unsigned? rest).map fun (digits, after) => ('-' :: digits, after)
  | s => unsigned? s

/-- An identifier: a letter or underscore, name characters, and an optional question mark. -/
def identifier? : List Char → Option (List Char × List Char)
  | [] => none
  | c :: rest =>
    if isIdentifierStart c then
      let name := c :: rest.takeWhile isNameChar
      match rest.dropWhile isNameChar with
      | '?' :: after => some (name ++ ['?'], after)
      | after => some (name, after)
    else none

/-- Two dots. -/
def dotdot? : List Char → Option (List Char × List Char)
  | '.' :: '.' :: rest => some (['.', '.'], rest)
  | _ => none

/-- A single character that is a lexeme of its own. -/
def single? : List Char → Option (Lexeme × List Char)
  | [] => none
  | c :: rest => (Kind.ofChar? c).map fun kind => (⟨kind, [c]⟩, rest)

/-- Makes a lexeme of a kind from what a reader found. -/
def ofRead (kind : Kind) (read : Option (List Char × List Char)) : Option (Lexeme × List Char) :=
  read.map fun (chars, rest) => (⟨kind, chars⟩, rest)

/-- The lexeme a text starts with, and what follows it. -/
def next (s : List Char) : Option (Lexeme × List Char) :=
  (ofRead .comparison (comparison? s)) <|> (ofRead .string (quoted? s)) <|>
    (ofRead .number (number? s)) <|> (ofRead .identifier (identifier? s)) <|>
    (ofRead .dotdot (dotdot? s)) <|> single? s

/-- The lexemes of a markup, or the first character that starts none. -/
def scanWithin : Nat → List Char → Except Char (List Lexeme)
  | 0, _ => .ok [ending]
  | fuel + 1, s =>
    match trimLeft s with
    | [] => .ok [ending]
    | c :: rest =>
      match next (c :: rest) with
      | none => .error c
      | some (lexeme, after) => (scanWithin fuel after).map (lexeme :: ·)

/-- The lexemes of a markup, its ending included, or the first character that starts none. -/
def scan (s : List Char) : Except Char (List Lexeme) := scanWithin (s.length + 1) s

end Lexeme

end Stencil
