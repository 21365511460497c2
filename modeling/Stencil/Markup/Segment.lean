import Stencil.Text.Blank
import Stencil.Text.Search
import Stencil.Text.Word

/-!
Segments: the pieces a template source is cut into. Literal text alternates with tags, which open
with a brace and a percent sign, and outputs, which open with two braces. A tag or output ends at its
first closer outside quotes; when a quote is never closed it ends at the first closer of all, and
when there is none it takes the rest of the source.
-/

namespace Stencil

open Text

namespace Segment

/-- Literal text, a tag or an output. -/
inductive Kind where
  | text | tag | output
  deriving DecidableEq

/-- The word for a kind of segment. -/
def Kind.name : Kind → String
  | .text => "text"
  | .tag => "tag"
  | .output => "output"

/-- The kind of segment with a name. -/
def Kind.ofName? (name : String) : Option Kind :=
  [.text, .tag, .output].find? (·.name == name)

end Segment

/-- A piece of a template source, delimiters included. -/
structure Segment where
  kind : Segment.Kind
  chars : List Char
  deriving DecidableEq

namespace Segment

/-! ### Cutting a source -/

/-- The kind of segment that opens with a brace and this character. -/
def Kind.ofMark? (c : Char) : Option Kind :=
  if c == '%' then some .tag else if c == '{' then some .output else none

/-- The character in front of the closing brace, by kind of segment. -/
def Kind.closingMark : Kind → Char
  | .output => '}'
  | _ => '%'

/-- The longest prefix without an opener, and what follows it. -/
def splitText : List Char → List Char × List Char
  | [] => ([], [])
  | '{' :: c :: rest =>
    if (Kind.ofMark? c).isSome then ([], '{' :: c :: rest)
    else
      let (text, after) := splitText (c :: rest)
      ('{' :: text, after)
  | c :: rest =>
    let (text, after) := splitText rest
    (c :: text, after)

/-- Cuts a text after the first closer outside quotes; `quote` is the quote that is open. -/
def cutQuoted (mark : Char) (quote : Option Char) : List Char → Option (List Char × List Char)
  | [] => none
  | c :: rest =>
    match quote with
    | some q => (cutQuoted mark (if c == q then none else some q) rest).map fun (s, after) =>
        (c :: s, after)
    | none =>
      if c == '\'' || c == '"' then
        (cutQuoted mark (some c) rest).map fun (s, after) => (c :: s, after)
      else
        match c == mark, rest with
        | true, '}' :: after => some ([c, '}'], after)
        | _, _ => (cutQuoted mark none rest).map fun (s, after) => (c :: s, after)

/-- Cuts a text after the first closer, quotes aside. -/
def cutPlain (mark : Char) (s : List Char) : Option (List Char × List Char) :=
  (cut [mark, '}'] s).map fun (before, after) => (before ++ [mark, '}'], after)

/-- Cuts what follows an opener into the rest of its segment and the rest of the source. -/
def cutCloser (mark : Char) (s : List Char) : List Char × List Char :=
  ((cutQuoted mark none s).or (cutPlain mark s)).getD (s, [])

/-- The first segment of a source that is not empty, and what follows it. -/
def next (s : List Char) : Segment × List Char :=
  match splitText s with
  | ([], '{' :: c :: rest) =>
    let kind := (Kind.ofMark? c).getD .text
    let (body, after) := cutCloser kind.closingMark rest
    (⟨kind, '{' :: c :: body⟩, after)
  | (text, after) => (⟨.text, text⟩, after)

/-- The segments of a source; every step takes at least one character. -/
def scanWithin : Nat → List Char → List Segment
  | 0, _ => []
  | fuel + 1, s =>
    if s.isEmpty then []
    else
      let (segment, rest) := next s
      segment :: scanWithin fuel rest

/-- The segments of a source. -/
def scan (s : List Char) : List Segment := scanWithin s.length s

/-! ### Lines -/

/-- A segment with the line it starts on and the line of what follows it, when lines are counted. -/
structure Placed where
  segment : Segment
  line : Option Nat
  next : Option Nat

/-- Places segments one after another from a line on. -/
def place (line : Option Nat) : List Segment → List Placed
  | [] => []
  | s :: rest =>
    let after := line.map (· + s.chars.count '\n')
    ⟨s, line, after⟩ :: place after rest

/-- The segments of a source with their lines, counted from one. -/
def scanPlaced (numbered : Bool) (s : List Char) : List Placed :=
  place (if numbered then some 1 else none) (scan s)

/-! ### Parts of a segment -/

/-- The segment as text. -/
def text (s : Segment) : String := String.ofList s.chars

/-- Whether the opener asks to trim the text in front of the segment. -/
def trimsLeft (s : Segment) : Bool := s.kind != .text && s.chars[2]? == some '-'

/-- Whether the closer asks to trim the text after the segment. -/
def trimsRight (s : Segment) : Bool :=
  s.kind != .text && 5 ≤ s.chars.length && s.chars[s.chars.length - 3]? == some '-'

/-- Drops a hyphen in front. -/
def dropHyphen : List Char → List Char
  | '-' :: rest => rest
  | s => s

/-- What stands in front of a two-character ending, if the text ends so. -/
def dropEnding? (mark : Char) (s : List Char) : Option (List Char) :=
  match s.reverse with
  | '}' :: c :: rest => if c == mark then some rest.reverse else none
  | _ => none

/-- Drops a hyphen at the end. -/
def dropHyphenAtEnd (s : List Char) : List Char := (dropHyphen s.reverse).reverse

/-- Name and markup of what follows the opener of a tag: an optional hyphen, blanks, a word, blanks,
then markup up to the closer. -/
def tagParts? (s : List Char) : Option (List Char × List Char) :=
  let body := trimLeft (dropHyphen s)
  let name := body.takeWhile isWordChar
  if name.isEmpty then none
  else
    (dropEnding? '%' (trimLeft (body.dropWhile isWordChar))).map fun markup =>
      (name, dropHyphenAtEnd markup)

/-- Name and markup of a tag that is properly closed. -/
def tag? (s : Segment) : Option (List Char × List Char) := tagParts? (s.chars.drop 2)

/-- The markup of an output that is properly closed. -/
def output? (s : Segment) : Option (List Char) :=
  (dropEnding? '}' (dropHyphen (s.chars.drop 2))).map dropHyphenAtEnd

/-- The text in front of the last opener of a tag in a segment, and the name of that tag, provided
the segment ends with the closer of a tag. -/
def lastTag? : List Char → Option (List Char × List Char)
  | [] => none
  | c :: rest =>
    match lastTag? rest with
    | some (before, name) => some (c :: before, name)
    | none =>
      match c, rest with
      | '{', '%' :: body => (tagParts? body).map fun (name, _) => ([], name)
      | _, _ => none

end Segment

end Stencil
