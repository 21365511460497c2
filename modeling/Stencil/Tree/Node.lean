import Stencil.Named
import Stencil.Tree.Condition
import Stencil.Tree.Pipeline

/-!
The tree of a template. Text, outputs and tags stand in lists called bodies; a tag keeps its name, its
raw markup and the line it starts on, and block tags keep their bodies.
-/

namespace Stencil

/-- What is common to all tags: name, raw markup and line. -/
structure Tag where
  name : String
  markup : String
  line : Option Nat

namespace Tag

/-- Name and markup as they stand in the source. -/
def raw (tag : Tag) : String := tag.name ++ " " ++ tag.markup

end Tag

/-- A signal that stops a body early, until the nearest loop takes it. -/
inductive Interrupt where
  | leave | skip
  deriving DecidableEq

/-- The name of an interrupt in messages. -/
def Interrupt.name : Interrupt → String
  | .leave => "break"
  | .skip => "continue"

/-- Extension tags without a body. -/
inductive LeafKind where
  /-- Puts its markup in upper case. -/
  | shout
  /-- Puts the number of scopes. -/
  | scopeDepth
  /-- Puts nothing. -/
  | plain
  deriving DecidableEq

/-- Block tags with one body. -/
inductive BlockKind where
  /-- Keeps the output of the body in a variable. -/
  | capture (target : String)
  /-- Puts the output of the body when it differs from the last one. -/
  | changed
  /-- Leaves the body out. -/
  | comment
  /-- Puts the body a number of times. -/
  | repeated (count : Nat)
  /-- Puts the body. -/
  | wrap
  deriving DecidableEq

/-- The head of a loop. Limit and offset are absent when they are written as nil. -/
structure LoopHeader where
  itemName : String
  /-- The identity of the loop, under which it is continued. -/
  name : String
  collection : Expr
  reversed : Bool := false
  limit : Option Expr := none
  offset : Option Expr := none
  /-- Whether the loop starts where the last one of the same name stopped. -/
  continues : Bool := false

/-- The head of a table. -/
structure TableHeader where
  itemName : String
  collection : Expr
  attributes : Named Expr := []

/-- A node of a template. -/
inductive Node where
  | text (s : String)
  | output (o : Output)
  | assign (tag : Tag) (target : String) (source : Output)
  | interrupt (tag : Tag) (signal : Interrupt)
  | cycle (tag : Tag) (group : Expr) (values : List Expr)
  | raw (tag : Tag) (text : String)
  | leaf (tag : Tag) (kind : LeafKind)
  /-- Bodies behind conditions, a body without one being always taken; `negated` turns the first
  condition round. -/
  | choose (tag : Tag) (negated : Bool) (branches : List (Option Condition × List Node))
  /-- Bodies behind alternatives of a subject. What stands in front of the first alternative is kept
  and never rendered. -/
  | case (tag : Tag) (subject : Expr) (preamble : List Node)
      (clauses : List (Option (List Expr) × List Node))
  | loop (tag : Tag) (header : LoopHeader) (body : List Node) (otherwise : Option (List Node))
  | table (tag : Tag) (header : TableHeader) (body : List Node)
  | block (tag : Tag) (kind : BlockKind) (body : List Node)

instance : Inhabited Node := ⟨.text ""⟩

/-- A list of nodes. -/
abbrev Body := List Node

namespace Node

/-- The tag of a node that is one. -/
def tag? : Node → Option Tag
  | .text _ | .output _ => none
  | .assign t .. | .interrupt t _ | .cycle t .. | .raw t _ | .leaf t _ | .choose t .. | .case t ..
  | .loop t .. | .table t .. | .block t .. => some t

/-- The line a node starts on. -/
def line? : Node → Option Nat
  | .output o => o.line
  | node => node.tag?.bind Tag.line

mutual

/-- Whether the output of a node is left out: it can hold nothing but blanks, or the tag has none. -/
def isBlank (node : Node) : Bool :=
  match node with
  | .text s => Text.isAllBlank s.toList
  | .output _ | .interrupt .. | .cycle .. | .leaf .. => false
  | .assign .. => true
  | .raw _ s => s == ""
  | .choose _ _ branches => branchesAreBlank branches
  | .case _ _ preamble clauses => bodyIsBlank preamble && clausesAreBlank clauses
  | .loop _ _ body otherwise =>
    bodyIsBlank body && (match otherwise with
      | some nodes => bodyIsBlank nodes
      | none => true)
  | .table _ _ body => bodyIsBlank body
  | .block _ kind body =>
    match kind with
    | .capture _ | .comment => true
    | .changed | .repeated _ | .wrap => bodyIsBlank body

/-- Whether every node of a body is blank. -/
def bodyIsBlank (nodes : List Node) : Bool :=
  match nodes with
  | [] => true
  | node :: rest => isBlank node && bodyIsBlank rest

/-- Whether every body behind a condition is blank. -/
def branchesAreBlank (branches : List (Option Condition × List Node)) : Bool :=
  match branches with
  | [] => true
  | (_, body) :: rest => bodyIsBlank body && branchesAreBlank rest

/-- Whether every body behind alternatives is blank. -/
def clausesAreBlank (clauses : List (Option (List Expr) × List Node)) : Bool :=
  match clauses with
  | [] => true
  | (_, body) :: rest => bodyIsBlank body && clausesAreBlank rest

end

end Node

/-- Whether every node of a body is blank. -/
abbrev Body.isBlank (body : Body) : Bool := Node.bodyIsBlank body

end Stencil
