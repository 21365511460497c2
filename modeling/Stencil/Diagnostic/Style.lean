/-!
Terminal styling of diagnostics. A piece of text has a role, a role has its colours, and a colour is
an escape sequence put in front of the text; with colours off every text stays as it is.
-/

namespace Stencil.Style

/-- Colours and weights of terminal text. -/
inductive Colour where
  | reset | bold | dim | red | green | yellow | cyan | brightRed | brightGreen
  deriving DecidableEq

/-- The escape sequence of a colour. -/
def Colour.sequence : Colour → String
  | .reset => "\x1b[0m"
  | .bold => "\x1b[1m"
  | .dim => "\x1b[2m"
  | .red => "\x1b[31m"
  | .green => "\x1b[32m"
  | .yellow => "\x1b[33m"
  | .cyan => "\x1b[36m"
  | .brightRed => "\x1b[91m"
  | .brightGreen => "\x1b[92m"

/-- The colour of a name. -/
def Colour.ofName? : String → Option Colour
  | "reset" => some .reset
  | "bold" => some .bold
  | "dim" => some .dim
  | "red" => some .red
  | "green" => some .green
  | "yellow" => some .yellow
  | "cyan" => some .cyan
  | "bright_red" => some .brightRed
  | "bright_green" => some .brightGreen
  | _ => none

/-- The part a piece of text plays in a diagnostic. -/
inductive Role where
  | code | location | gutter | source | offending | hint | suggestion
  deriving DecidableEq

/-- The colours of a role. -/
def Role.colours : Role → List Colour
  | .code => [.brightRed, .bold]
  | .location => [.cyan]
  | .gutter => [.yellow]
  | .source => [.dim]
  | .offending => [.brightRed]
  | .hint => [.green]
  | .suggestion => [.brightGreen, .bold]

/-- The role of a name. -/
def Role.ofName? : String → Option Role
  | "code" => some .code
  | "location" => some .location
  | "gutter" => some .gutter
  | "source" => some .source
  | "offending" => some .offending
  | "hint" => some .hint
  | "suggestion" => some .suggestion
  | _ => none

/-- The text in the given colours; without a colour, or with colours off, the text itself. -/
def paint (colour : Bool) (colours : List Colour) (text : String) : String :=
  if colour && !colours.isEmpty then
    String.join (colours.map Colour.sequence) ++ text ++ Colour.reset.sequence
  else text

/-- The text in the colours of its role. -/
def style (colour : Bool) (role : Role) (text : String) : String := paint colour role.colours text

/-- The escape character. -/
def escape : Char := '\x1b'

/-- Characters that end an escape sequence of two characters. -/
def isShortFinal (c : Char) : Bool := ('@' ≤ c && c ≤ 'Z') || ('\\' ≤ c && c ≤ '_')

/-- What follows a control sequence that was opened by a bracket: parameter bytes, then intermediate
bytes, then one final byte. -/
def dropControl (s : List Char) : Option (List Char) :=
  let rest := s.dropWhile fun c => '0' ≤ c && c ≤ '?'
  match rest.dropWhile fun c => ' ' ≤ c && c ≤ '/' with
  | c :: after => if '@' ≤ c && c ≤ '~' then some after else none
  | [] => none

/-- What follows an escape sequence, given the text after its escape character. -/
def dropSequence : List Char → Option (List Char)
  | [] => none
  | c :: rest => if isShortFinal c then some rest else if c == '[' then dropControl rest else none

/-- The text without escape sequences; every step takes at least one character. -/
def stripWithin : Nat → List Char → List Char
  | 0, s => s
  | _ + 1, [] => []
  | fuel + 1, c :: rest =>
    if c == escape then
      match dropSequence rest with
      | some after => stripWithin fuel after
      | none => c :: stripWithin fuel rest
    else c :: stripWithin fuel rest

/-- The text without escape sequences. -/
def strip (s : List Char) : List Char := stripWithin s.length s

/-- Whether colours are used, from the settings that force or forbid them, when the output is no
terminal: an empty setting counts as absent. -/
def isWanted (forced forbidden : Option String) : Bool :=
  if forced.any (· != "") then true else if forbidden.any (· != "") then false else false

end Stencil.Style
