import Stencil.Markup.Segment
import Stencil.Text.Case
import Stencil.Tree.Header
import Stencil.Tree.Parsing
import Stencil.Tree.TagKind

/-!
Building the tree of a template from its segments. The builder takes one segment after another and
keeps the blocks that are open, innermost first; a block is made when its end is met.
-/

namespace Stencil

/-- How a template is read. -/
structure ParseOptions where
  tags : Named TagKind := builtinTags
  mode : ErrorMode := .lax
  numbered : Bool := true
  maxDepth : Int := 100
  name : Option String := none

/-- The head of a block that is open. -/
inductive Opening where
  | choose (negated : Bool)
  | case (subject : Expr)
  | loop (header : LoopHeader)
  | table (header : TableHeader)
  | block (kind : BlockKind)

/-- What a part of a block stands behind. -/
inductive Guard where
  /-- The first part of a block, when it stands behind nothing. -/
  | opening
  /-- A condition. -/
  | condition (c : Condition)
  /-- Alternatives of a subject. -/
  | alternatives (es : List Expr)
  /-- Whatever is left. -/
  | otherwise

/-- A block that is open: its finished parts and the nodes of the current one, all last first. -/
structure Frame where
  tag : Tag
  opening : Opening
  parts : List (Guard × Body) := []
  guard : Guard
  nodes : List Node := []

namespace Frame

/-- The parts of a block, in order. -/
def allParts (f : Frame) : List (Guard × Body) := ((f.guard, f.nodes.reverse) :: f.parts).reverse

/-- Starts a new part. -/
def startPart (f : Frame) (guard : Guard) : Frame :=
  { f with parts := (f.guard, f.nodes.reverse) :: f.parts, guard, nodes := [] }

/-- Whether the current part stands behind nothing but an else. -/
def inOtherwise (f : Frame) : Bool :=
  match f.guard with
  | .otherwise => true
  | _ => false

/-- The condition a part stands behind, if it does. -/
def branch (part : Guard × Body) : Option Condition × Body :=
  match part.1 with
  | .condition c => (some c, part.2)
  | _ => (none, part.2)

/-- The alternatives a part stands behind, if it does. -/
def clause (part : Guard × Body) : Option (List Expr) × Body :=
  match part.1 with
  | .alternatives es => (some es, part.2)
  | _ => (none, part.2)

/-- The node of a block that has been closed. -/
def finish (f : Frame) : Node :=
  let first := (f.allParts.head?.map (·.2)).getD []
  let others := f.allParts.tail
  match f.opening with
  | .choose negated => .choose f.tag negated (f.allParts.map branch)
  | .case subject => .case f.tag subject first (others.map clause)
  | .loop header => .loop f.tag header first (others.head?.map (·.2))
  | .table header => .table f.tag header first
  | .block kind => .block f.tag kind first

end Frame

/-- What a registered tag is. -/
inductive TagReading where
  /-- A node by itself. -/
  | node (node : Node)
  /-- The head of a block, and what its first part stands behind. -/
  | opens (opening : Opening) (guard : Guard)
  /-- The head of a verbatim section. -/
  | verbatim

/-- What a tag that is not registered is to an open block. -/
inductive PartReading where
  /-- The end of the block. -/
  | ends
  /-- The head of the next part of the block. -/
  | starts (guard : Guard)
  /-- Nothing. -/
  | skipped

/-- A verbatim section that is open, with the text it has so far, last piece first. -/
structure Verbatim where
  tag : Tag
  pieces : List (List Char) := []

/-- What has been built so far. -/
structure Builder where
  /-- The nodes outside any block, last first. -/
  nodes : List Node := []
  /-- The open blocks, innermost first. -/
  frames : List Frame := []
  verbatim : Option Verbatim := none
  /-- Whether the next text is to lose the blanks in front. -/
  trimNext : Bool := false

namespace Builder

/-- The nodes of the innermost body, last first. -/
def current (b : Builder) : List Node :=
  match b.frames with
  | [] => b.nodes
  | f :: _ => f.nodes

/-- Replaces the nodes of the innermost body. -/
def setCurrent (b : Builder) (nodes : List Node) : Builder :=
  match b.frames with
  | [] => { b with nodes }
  | f :: rest => { b with frames := { f with nodes } :: rest }

/-- Adds a node to the innermost body. -/
def add (b : Builder) (node : Node) : Builder := b.setCurrent (node :: b.current)

/-- Takes the blanks at the end off the last node, if it is text. -/
def trimLast : List Node → List Node
  | .text s :: rest => .text (Text.trimRightText s) :: rest
  | nodes => nodes

/-- Does what the hyphens of a tag or output ask for. -/
def applyTrims (b : Builder) (s : Segment) : Builder :=
  let b := if s.trimsLeft then b.setCurrent (trimLast b.current) else b
  { b with trimNext := s.trimsRight }

/-- Adds a text, without the blanks in front if the last segment asked for it. -/
def addText (b : Builder) (s : Segment) : Builder :=
  let text := if b.trimNext then Text.trimLeftText s.text else s.text
  { b.add (.text text) with trimNext := false }

/-- Opens a block, unless blocks are nested too deeply. -/
def openBlock (options : ParseOptions) (b : Builder) (tag : Tag) (opening : Opening)
    (guard : Guard) : Parsing Builder :=
  if options.maxDepth ≤ (b.frames.length : Int) + 1 then
    throw (.template { TemplateError.nestingTooDeep with line := tag.line.map Int.ofNat })
  else pure { b with frames := { tag, opening, guard } :: b.frames }

/-- Reads an output. -/
def readOutput (options : ParseOptions) (line : Option Nat) (markup : List Char) :
    Parsing Output := do
  let pipeline ← Parsing.select options.mode line Pipeline.readStrict Pipeline.readLax markup
  return { pipeline, markup := String.ofList markup, line }

/-- Reads a condition of a tag. -/
def readCondition (options : ParseOptions) (line : Option Nat) (tag : String)
    (markup : List Char) : Parsing Condition :=
  Parsing.select options.mode line Condition.readStrict (Condition.readLax tag) markup

/-- The count of a repetition: a single digit. -/
def readCount (markup : List Char) : Outcome Nat :=
  match Text.trim markup with
  | [c] => if c.isDigit then .ok (c.toNat - 48) else complain .repeatCount
  | _ => complain .repeatCount

/-- Reads a registered tag. -/
def readTag (options : ParseOptions) (kind : TagKind) (tag : Tag) (markup : List Char) :
    Parsing TagReading := do
  let block (kind : BlockKind) : TagReading := .opens (.block kind) .opening
  match kind with
  | .assign =>
    match Fragment.assignment? markup with
    | none => Parsing.ofOutcome (complain .assignment)
    | some (target, source) =>
      return .node (.assign tag (String.ofList target) (← readOutput options tag.line source))
  | .leave => return .node (.interrupt tag .leave)
  | .skip => return .node (.interrupt tag .skip)
  | .capture =>
    match Fragment.firstTarget? markup with
    | none => Parsing.ofOutcome (complain .captureTarget)
    | some target => return block (.capture (String.ofList target))
  | .case =>
    match Fragment.first? markup with
    | none => Parsing.ofOutcome (complain .caseSubject)
    | some (subject, _) =>
      return .opens (.case (← Parsing.ofOutcome (Expr.read subject))) .opening
  | .comment => return block .comment
  | .cycle =>
    let (group, values) ← Parsing.ofOutcome (readCycle markup)
    return .node (.cycle tag group values)
  | .loop =>
    let header ← Parsing.select options.mode tag.line LoopHeader.readStrict LoopHeader.readLax markup
    return .opens (.loop header) .opening
  | .choose =>
    let condition ← readCondition options tag.line tag.name markup
    return .opens (.choose false) (.condition condition)
  | .negated =>
    let condition ← readCondition options tag.line tag.name markup
    return .opens (.choose true) (.condition condition)
  | .changed => return block .changed
  | .raw =>
    if Text.isAllBlank markup then return .verbatim
    else Parsing.ofOutcome (complain .rawMarkup)
  | .table => return .opens (.table (← Parsing.ofOutcome (TableHeader.read markup))) .opening
  | .shout => return .node (.leaf tag .shout)
  | .scopeDepth => return .node (.leaf tag .scopeDepth)
  | .plain => return .node (.leaf tag .plain)
  | .repeated => return block (.repeated (← Parsing.ofOutcome (readCount markup)))
  | .wrap => return block .wrap

/-- Takes a tag whose name is registered. -/
def takeTag (options : ParseOptions) (b : Builder) (kind : TagKind) (tag : Tag)
    (markup : List Char) : Parsing Builder := do
  match ← readTag options kind tag markup with
  | .node node => return b.add node
  | .opens opening guard => openBlock options b tag opening guard
  | .verbatim => return { b with verbatim := some { tag } }

/-- Complains about a tag that a block does not take. -/
def refuse {α : Type} (f : Frame) (name : String) : Parsing α :=
  Parsing.ofOutcome (complain (
    if name == "else" then .strayElse f.tag.name
    else if name.startsWith "end" then .strayEnd name f.tag.name
    else .unknownTag name))

/-- Reads a tag that is not registered inside an open block: it ends the block, starts its next part, or
is refused. -/
def readPart (options : ParseOptions) (f : Frame) (name : String) (line : Option Nat)
    (markup : List Char) : Parsing PartReading := do
  if name == Complaint.delimiter f.tag.name then return .ends
  match f.opening with
  | .choose _ =>
    if name == "elsif" then
      return .starts (.condition (← readCondition options line f.tag.name markup))
    else if name == "else" then return .starts .otherwise
    else refuse f name
  | .case _ =>
    if name == "when" then
      match Fragment.alternatives markup with
      | [] => Parsing.ofOutcome (complain .caseAlternative)
      | values => return .starts (.alternatives (← Parsing.ofOutcome (values.mapM Expr.read)))
    else if name == "else" then
      if Text.isAllBlank markup then return .starts .otherwise
      else Parsing.ofOutcome (complain .caseElse)
    else refuse f name
  | .loop _ =>
    if name == "else" && !f.inOtherwise then return .starts .otherwise else refuse f name
  | .block .comment => return .skipped
  | _ => refuse f name

/-- Takes a tag that is not registered inside an open block. -/
def takePart (options : ParseOptions) (b : Builder) (f : Frame) (rest : List Frame)
    (name : String) (line : Option Nat) (markup : List Char) : Parsing Builder := do
  match ← readPart options f name line markup with
  | .ends => return { b with frames := rest }.add f.finish
  | .starts guard => return { b with frames := f.startPart guard :: rest }
  | .skipped => return b

/-- Complains about a tag that is not registered and stands outside any block. -/
def refuseOuter {α : Type} (name : String) : Parsing α :=
  Parsing.ofOutcome (complain (
    if name == "else" || name == "elsif" || name == "when" || name.startsWith "end" then
      .outerTag name
    else .unknownTag name))

/-- Takes a segment while a verbatim section is open. -/
def takeVerbatim (b : Builder) (v : Verbatim) (s : Segment) : Builder :=
  match Segment.lastTag? s.chars with
  | some (before, name) =>
    if String.ofList name == Complaint.delimiter v.tag.name then
      let text := (before :: v.pieces).reverse.flatten
      { b.add (.raw v.tag (String.ofList text)) with verbatim := none, trimNext := s.trimsRight }
    else { b with verbatim := some { v with pieces := s.chars :: v.pieces } }
  | none => { b with verbatim := some { v with pieces := s.chars :: v.pieces } }

/-- Takes a segment. -/
def take (options : ParseOptions) (b : Builder) (p : Segment.Placed) : Parsing Builder := do
  match b.verbatim with
  | some v => return b.takeVerbatim v p.segment
  | none =>
    match p.segment.kind with
    | .text => return b.addText p.segment
    | .output =>
      let b := b.applyTrims p.segment
      match p.segment.output? with
      | none => Parsing.ofOutcome (complain (.unclosedOutput p.segment.text))
      | some markup => return b.add (.output (← readOutput options p.line markup))
    | .tag =>
      let b := b.applyTrims p.segment
      match p.segment.tag? with
      | none => Parsing.ofOutcome (complain (.unclosedTag p.segment.text))
      | some (nameChars, markup) =>
        let name := String.ofList nameChars
        match options.tags.get? name with
        | some kind => b.takeTag options kind ⟨name, String.ofList markup, p.line⟩ markup
        | none =>
          match b.frames with
          | [] => refuseOuter name
          | f :: rest => b.takePart options f rest name p.line markup

/-- The tree when all segments are taken; the innermost open section must not be left open. -/
def finish (b : Builder) : Outcome Body :=
  let unclosed (tag : Tag) : Outcome Body :=
    let e := (Complaint.neverClosed tag.name).toError
    .error (.template { e with line := tag.line.map Int.ofNat })
  match b.verbatim, b.frames with
  | some v, _ => unclosed v.tag
  | none, f :: _ => unclosed f.tag
  | none, [] => .ok b.nodes.reverse

end Builder

namespace Parsing

/-- Gives a failure its place where it has none. -/
def locate {α : Type} (line : Option Nat) (name : Option String) (step : Parsing α) : Parsing α :=
  tryCatch step fun
    | .template e => throw (.template (e.locate (line.map Int.ofNat) name))
    | .host e => throw (.host e)

end Parsing

/-- Takes segments one after another; a failure is given the line of its segment. -/
def Builder.takeAll (options : ParseOptions) (b : Builder) :
    List Segment.Placed → Parsing Builder
  | [] => pure b
  | p :: rest => do
    let b ← Parsing.locate p.line options.name (b.take options p)
    Builder.takeAll options b rest

/-- The line behind the last segment. -/
def lastLine (numbered : Bool) (segments : List Segment.Placed) : Option Nat :=
  match segments.getLast? with
  | some p => p.next
  | none => if numbered then some 1 else none

/-- Reads the tree of a template. -/
def parseBody (options : ParseOptions) (source : List Char) : Parsing Body := do
  if options.maxDepth ≤ 0 then
    throw (.template { TemplateError.nestingTooDeep with templateName := options.name })
  let segments := Segment.scanPlaced options.numbered source
  let b ← Builder.takeAll options {} segments
  Parsing.locate (lastLine options.numbered segments) options.name (Parsing.ofOutcome b.finish)

end Stencil
