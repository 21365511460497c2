import Stencil.Markup.Lexeme
import Stencil.Text.Search

/-!
Fragments: what the tolerant grammar takes for an operand. A fragment is a quoted string, or a run of
characters other than blanks, commas, bars and quotes in which quoted strings may stand. The tolerant
grammar looks for fragments in markup and passes over what it does not understand.
-/

namespace Stencil.Fragment

open Text

/-- A quoted string at the front of a text. -/
def quoted? (s : List Char) : Option (List Char × List Char) := Lexeme.quoted? s

/-- Characters that stand for themselves in a fragment. -/
def isPlain (c : Char) : Bool :=
  !isBlank c && c != ',' && c != '|' && c != '\'' && c != '"'

/-- One piece of a run: a plain character or a quoted string. -/
def piece? : List Char → Option (List Char × List Char)
  | [] => none
  | c :: rest => if isPlain c then some ([c], rest) else quoted? (c :: rest)

/-- The pieces at the front of a text, and what follows them. -/
def piecesWithin : Nat → List Char → List (List Char) × List Char
  | 0, s => ([], s)
  | fuel + 1, s =>
    match piece? s with
    | none => ([], s)
    | some (piece, rest) =>
      let (pieces, after) := piecesWithin fuel rest
      (piece :: pieces, after)

/-- The longest run of pieces at the front of a text, and what follows it. -/
def run (s : List Char) : List Char × List Char :=
  let (pieces, after) := piecesWithin s.length s
  (pieces.flatten, after)

/-- The longest run at the front of a text that is not empty. -/
def run? (s : List Char) : Option (List Char × List Char) :=
  let (taken, after) := run s
  if taken.isEmpty then none else some (taken, after)

/-- The fragment at the front of a text: a quoted string if there is one, else a run. -/
def at? (s : List Char) : Option (List Char × List Char) := (quoted? s).or (run? s)

/-- The first fragment in a text, and what follows it. -/
def first? : List Char → Option (List Char × List Char)
  | [] => none
  | c :: rest => (at? (c :: rest)).or (first? rest)

/-! ### Attributes -/

/-- An attribute at the front of a text: a name, a colon and a fragment, blanks between them. -/
def attributeAt? (s : List Char) : Option ((List Char × List Char) × List Char) :=
  match s with
  | [] => none
  | c :: rest =>
    if isWordChar c then
      match trimLeft (rest.dropWhile isNameChar) with
      | ':' :: after =>
        (at? (trimLeft after)).map fun (value, tail) =>
          ((c :: rest.takeWhile isNameChar, value), tail)
      | _ => none
    else none

/-- The attributes in a text; every step takes at least one character. -/
def attributesWithin : Nat → List Char → List (List Char × List Char)
  | 0, _ => []
  | _ + 1, [] => []
  | fuel + 1, c :: rest =>
    match attributeAt? (c :: rest) with
    | some (pair, after) => pair :: attributesWithin fuel after
    | none => attributesWithin fuel rest

/-- The attributes in a text, in order. -/
def attributes (s : List Char) : List (List Char × List Char) := attributesWithin s.length s

/-- Name and value of a text that is one attribute from end to end. -/
def wholeAttribute? (s : List Char) : Option (List Char × List Char) :=
  match s with
  | [] => none
  | c :: rest =>
    if isWordChar c then
      match trimLeft (rest.dropWhile isNameChar) with
      | ':' :: after =>
        match run? (trimLeft after) with
        | some (value, []) => some (c :: rest.takeWhile isNameChar, value)
        | _ => none
      | _ => none
    else none

/-! ### Filter calls -/

/-- A stretch of a pipeline: everything up to a bar or a quote that is never closed. -/
def stretchWithin : Nat → List Char → List Char × List Char
  | 0, s => ([], s)
  | _ + 1, [] => ([], [])
  | fuel + 1, c :: rest =>
    if c == '|' then ([], c :: rest)
    else if c == '\'' || c == '"' then
      match quoted? (c :: rest) with
      | some (text, after) =>
        let (more, tail) := stretchWithin fuel after
        (text ++ more, tail)
      | none => ([], c :: rest)
    else
      let (more, tail) := stretchWithin fuel rest
      (c :: more, tail)

/-- The stretches of a pipeline that are not empty; every step takes at least one character. -/
def stretchesWithin : Nat → List Char → List (List Char)
  | 0, _ => []
  | _ + 1, [] => []
  | fuel + 1, c :: rest =>
    match stretchWithin (rest.length + 1) (c :: rest) with
    | ([], _) => stretchesWithin fuel rest
    | (stretch, after) => stretch :: stretchesWithin fuel after

/-- The stretches of a pipeline. -/
def stretches (s : List Char) : List (List Char) := stretchesWithin s.length s

/-- The first word in a text. -/
def firstWord? (s : List Char) : Option (List Char) :=
  let word := (s.dropWhile (!isWordChar ·)).takeWhile isWordChar
  if word.isEmpty then none else some word

/-- A keyword with its colon and the blanks around it, at the front of a text. -/
def keyword? (s : List Char) : Option (List Char × List Char) :=
  let word := s.takeWhile isWordChar
  let gap := (s.dropWhile isWordChar).takeWhile isBlank
  match (s.dropWhile isWordChar).dropWhile isBlank with
  | ':' :: after =>
    if word.isEmpty then none
    else some (word ++ gap ++ ':' :: after.takeWhile isBlank, after.dropWhile isBlank)
  | _ => none

/-- An argument at the front of a text: a fragment, with a keyword in front of it or not. -/
def argument? (s : List Char) : Option (List Char × List Char) :=
  let plain := at? s
  match keyword? s with
  | some (keyword, after) =>
    ((at? after).map fun (value, tail) => (keyword ++ value, tail)).or plain
  | none => plain

/-- The arguments in a stretch: whatever follows a colon or a comma. -/
def argumentsWithin : Nat → List Char → List (List Char)
  | 0, _ => []
  | _ + 1, [] => []
  | fuel + 1, c :: rest =>
    if c == ':' || c == ',' then
      match argument? (trimLeft rest) with
      | some (argument, after) => argument :: argumentsWithin fuel after
      | none => argumentsWithin fuel rest
    else argumentsWithin fuel rest

/-- The arguments in a stretch, in order. -/
def arguments (s : List Char) : List (List Char) := argumentsWithin s.length s

/-! ### Conditions -/

/-- What follows a whole word at the front of a text. -/
def wholeWord? (word s : List Char) : Option (List Char) :=
  (dropPrefix? word s).filter fun rest => !rest.head?.any isWordChar

/-- The word that joins two conditions, at the front of a text. -/
def relation? (s : List Char) : Option (List Char × List Char) :=
  ((wholeWord? ['a', 'n', 'd'] s).map (['a', 'n', 'd'], ·)).or
    ((wholeWord? ['o', 'r'] s).map (['o', 'r'], ·))

/-- A part of a condition: a fragment, or whatever stands there up to the next blank. -/
def operand (s : List Char) : List Char × List Char :=
  (at? s).getD (s.takeWhile (!isBlank ·), s.dropWhile (!isBlank ·))

/-- The parts of one condition, up to a joining word. -/
def conditionWithin : Nat → List Char → List Char × List Char
  | 0, s => ([], s)
  | fuel + 1, s =>
    let gap := s.takeWhile isBlank
    let body := s.dropWhile isBlank
    if body.isEmpty || (relation? body).isSome then (gap, body)
    else
      let (text, rest) := operand body
      let (more, after) := conditionWithin fuel rest
      (gap ++ text ++ more, after)

/-- Conditions and joining words in turn; every step takes at least one character. -/
def conditionsWithin : Nat → List Char → List (List Char)
  | 0, _ => []
  | fuel + 1, s =>
    let body := trimLeft s
    if body.isEmpty then []
    else
      match relation? body with
      | some (word, rest) => word :: conditionsWithin fuel rest
      | none =>
        let (text, rest) := conditionWithin (body.length + 1) body
        text :: conditionsWithin fuel rest

/-- The conditions and joining words in a markup. -/
def conditions (s : List Char) : List (List Char) := conditionsWithin (s.length + 1) s

/-- Characters of an operator between two operands. -/
def isOperatorChar (c : Char) : Bool :=
  c == '=' || c == '!' || c == '<' || c == '>' || c == '_' || c.isLower

/-- Operand, operator and operand of a comparison, the last two if they are there. -/
def comparison? (s : List Char) : Option (List Char × Option (List Char) × Option (List Char)) :=
  (first? s).map fun (left, rest) =>
    let body := trimLeft rest
    let operator := body.takeWhile isOperatorChar
    let right := (at? (trimLeft (body.dropWhile isOperatorChar))).map (·.1)
    (left, if operator.isEmpty then none else some operator, right)

/-! ### Assignments, alternatives and loops -/

/-- Characters of an assigned name. -/
def isTargetChar (c : Char) : Bool := isNameChar c || c == '.' || c == '[' || c == ']'

/-- Drops a closing parenthesis in front. -/
def closeRound (s : List Char) : List Char × List Char :=
  match s with
  | ')' :: rest => ([')'], rest)
  | rest => ([], rest)

/-- The longest assigned name at the front of a text; each character may stand in parentheses. -/
def targetWithin : Nat → List Char → List Char × List Char
  | 0, s => ([], s)
  | _ + 1, [] => ([], [])
  | fuel + 1, c :: rest =>
    if c == '(' then
      match rest with
      | d :: tail =>
        if isTargetChar d then
          let (close, after) := closeRound tail
          let (more, left) := targetWithin fuel after
          (c :: d :: close ++ more, left)
        else ([], c :: rest)
      | [] => ([], [c])
    else if isTargetChar c then
      let (close, after) := closeRound rest
      let (more, left) := targetWithin fuel after
      (c :: close ++ more, left)
    else ([], c :: rest)

/-- The longest assigned name at the front of a text. -/
def target (s : List Char) : List Char × List Char := targetWithin s.length s

/-- The first assigned name in a text. -/
def firstTarget? : List Char → Option (List Char)
  | [] => none
  | c :: rest =>
    match target (c :: rest) with
    | ([], _) => firstTarget? rest
    | (name, _) => some name

/-- The first name in a text that an equals sign follows, and what stands after the sign. -/
def assignment? : List Char → Option (List Char × List Char)
  | [] => none
  | c :: rest =>
    match target (c :: rest) with
    | ([], _) => assignment? rest
    | (name, after) =>
      match trimLeft after with
      | '=' :: source => some (name, trimLeft source)
      | _ => assignment? rest

/-- What separates an alternative from the next: a comma, or the word for alternatives between
blanks. -/
def separator? (s : List Char) : Option (List Char) :=
  let body := trimLeft s
  match body with
  | ',' :: rest => some (trimLeft rest)
  | 'o' :: 'r' :: rest =>
    if body.length < s.length && rest.head?.any isBlank then some (trimLeft rest) else none
  | _ => none

/-- The alternatives in a markup; none when there is not even one. -/
def alternativesWithin : Nat → List Char → List (List Char)
  | 0, _ => []
  | fuel + 1, s =>
    match first? s with
    | none => []
    | some (value, rest) =>
      match (separator? rest).filter fun next => (at? next).isSome with
      | some next => value :: alternativesWithin fuel next
      | none => [value]

/-- The alternatives in a markup. -/
def alternatives (s : List Char) : List (List Char) := alternativesWithin (s.length + 1) s

/-- What follows blanks, the word between a loop variable and its collection, and blanks again. -/
def afterIn? (s : List Char) : Option (List Char) :=
  let body := trimLeft s
  match body with
  | 'i' :: 'n' :: rest =>
    if body.length < s.length && rest.head?.any isBlank then some (trimLeft rest) else none
  | _ => none

/-- Variable, collection and direction of a loop; the last is true for a reversed one. -/
def loopHeader? (s : List Char) : Option (List Char × List Char × Bool) := do
  let name := s.takeWhile isNameChar
  if name.isEmpty then none
  let rest ← afterIn? (s.dropWhile isNameChar)
  let (collection, after) ← run? rest
  return (name, collection, "reversed".toList.isPrefixOf (trimLeft after))

/-- Variable and collection of a table at the front of a text. -/
def tableHeaderAt? (s : List Char) : Option (List Char × List Char) := do
  let name := s.takeWhile isWordChar
  if name.isEmpty then none
  let rest ← afterIn? (s.dropWhile isWordChar)
  let (collection, _) ← run? rest
  return (name, collection)

/-- The first variable and collection of a table in a text. -/
def tableHeader? : List Char → Option (List Char × List Char)
  | [] => none
  | c :: rest => (tableHeaderAt? (c :: rest)).or (tableHeader? rest)

/-- Group and list of a named cycle: the group ends at the last colon of the run at the front, or at
a colon after it. -/
def namedCycle? (s : List Char) : Option (List Char × List Char) :=
  let colonAfter (rest : List Char) : Option (List Char) :=
    match trimLeft rest with
    | ':' :: after => some (trimLeft after)
    | _ => none
  let ofQuoted := (quoted? s).bind fun (name, rest) => (colonAfter rest).map (name, ·)
  let (pieces, after) := piecesWithin s.length s
  let ofRun := if pieces.isEmpty then none
    else (colonAfter after).map (pieces.flatten, ·)
  let ofColon := (lastColon? pieces).map fun (name, rest) => (name, trimLeft (rest ++ after))
  (ofQuoted.or ofRun).or ofColon
where
  /-- The pieces in front of and behind the last colon that is not the first piece. -/
  lastColon? (pieces : List (List Char)) : Option (List Char × List Char) :=
    match pieces.reverse.dropWhile (· != [':']) with
    | _ :: front =>
      if front.isEmpty then none
      else some (front.reverse.flatten, (pieces.drop (front.length + 1)).flatten)
    | [] => none

/-- The values of a cycle: the first fragment between every two commas. -/
def cycleValues (s : List Char) : List (List Char) :=
  (s.splitOnP (· == ',')).filterMap fun part => (first? part).map (·.1)

end Stencil.Fragment
