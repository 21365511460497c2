import Stencil.Tree.Item

/-!
Walking a tree: all items in source order, and a visitor that collects what callbacks say about the
items, nested like the tree itself.
-/

namespace Stencil

namespace Expr

mutual

/-- The number of parts of an expression, itself included. -/
def weight (e : Expr) : Nat :=
  match e with
  | .value _ => 1
  | .lookup root path => 1 + weight root + pathWeight path
  | .range first last => 1 + weight first + weight last

/-- The number of parts of a path. -/
def pathWeight (path : List Step) : Nat :=
  match path with
  | [] => 0
  | .name _ :: rest => 1 + pathWeight rest
  | .index e :: rest => weight e + pathWeight rest

end

end Expr

namespace Item

/-- The number of parts of expressions. -/
def exprsWeight (es : List Expr) : Nat := (es.map Expr.weight).foldl (· + ·) 0

/-- The number of parts of a filter call. -/
def filterWeight (call : FilterCall) : Nat :=
  1 + exprsWeight call.args + exprsWeight (call.kwargs.map (·.2))

/-- The number of parts of an output. -/
def outputWeight (o : Output) : Nat :=
  1 + o.pipeline.expr.weight + (o.pipeline.filters.map filterWeight).foldl (· + ·) 0

/-- The number of parts of a condition. -/
def conditionWeight : Condition → Nat
  | .single c => 1 + c.left.weight + c.right.weight
  | .joined c _ rest => 1 + c.left.weight + c.right.weight + conditionWeight rest

mutual

/-- The number of parts of a node. -/
def nodeWeight (node : Node) : Nat :=
  match node with
  | .text _ => 1
  | .output o => outputWeight o
  | .assign _ _ source => 1 + outputWeight source
  | .interrupt .. | .leaf .. => 1
  | .cycle _ _ values => 1 + exprsWeight values
  | .raw .. => 2
  | .choose _ _ branches => 1 + branchesWeight branches
  | .case _ subject _ clauses => 1 + subject.weight + clausesWeight subject clauses
  | .loop _ header body otherwise =>
    1 + (1 + nodesWeight body) +
      (match otherwise with
        | some nodes => 1 + nodesWeight nodes
        | none => 0) +
      exprsWeight (header.limit.toList ++ header.offset.toList ++ [header.collection])
  | .table _ header body =>
    1 + nodesWeight body + exprsWeight (header.attributes.map (·.2)) + header.collection.weight
  | .block _ _ body => 1 + nodesWeight body

/-- The number of parts of a body. -/
def nodesWeight (nodes : List Node) : Nat :=
  match nodes with
  | [] => 0
  | node :: rest => nodeWeight node + nodesWeight rest

/-- The number of parts of the bodies behind conditions. -/
def branchesWeight (branches : List (Option Condition × List Node)) : Nat :=
  match branches with
  | [] => 0
  | (guard, body) :: rest =>
    (match guard with
      | some c => conditionWeight c
      | none => 1) + (1 + nodesWeight body) + branchesWeight rest

/-- The number of parts of the bodies behind alternatives, each body once per alternative. -/
def clausesWeight (subject : Expr) (clauses : List (Option (List Expr) × List Node)) : Nat :=
  match clauses with
  | [] => 0
  | (values, body) :: rest =>
    let inner := nodesWeight body
    (match values with
      | some values => (values.map fun value => 2 + subject.weight + value.weight + inner).foldl (· + ·) 0
      | none => 2 + inner) + clausesWeight subject rest

end

/-- The number of parts of an item, itself included. -/
def weight : Item → Nat
  | .document body | .part body => 1 + nodesWeight body
  | .tag node => nodeWeight node
  | .output o => outputWeight o
  | .filter call => filterWeight call
  | .condition c body => conditionWeight c + (match body with
    | some nodes => 1 + nodesWeight nodes
    | none => 0)
  | .fallback body => 2 + nodesWeight body
  | .expr e => e.weight

/-- Takes items off a stack and puts their children on it; every step takes one item. -/
def walkWithin : Nat → List Item → List Item
  | 0, _ => []
  | _ + 1, [] => []
  | fuel + 1, item :: rest => item :: walkWithin fuel (item.children ++ rest)

/-- An item and everything below it, in source order. -/
def walk (item : Item) : List Item := walkWithin item.weight [item]

/-- The root names of all variable paths below an item. -/
def referencedVariables (item : Item) : List String :=
  item.walk.filterMap fun
    | .expr (.lookup root _) => root.name?
    | _ => none

end Item

/-- What a visitor collected: for an item, and for the items below it. -/
inductive Visited (α : Type) where
  | mk (item : Option α) (below : List (Visited α))

/-- What a visitor says about an item in a context: something to collect, and a new context for the
items below it, if it sets one. -/
abbrev Visitor (α γ : Type) := Item → γ → Option (α × Option γ)

namespace Visitor

/-- Visits the children of an item; every step goes one level down. -/
def visitWithin {α γ : Type} (visitor : Visitor α γ) : Nat → γ → Item → List (Visited α)
  | 0, _, _ => []
  | fuel + 1, context, item =>
    item.children.map fun child =>
      match visitor child context with
      | none => .mk none (visitWithin visitor fuel context child)
      | some (said, next) => .mk (some said) (visitWithin visitor fuel (next.getD context) child)

/-- Visits everything below an item. -/
def visit {α γ : Type} (visitor : Visitor α γ) (context : γ) (item : Item) : List (Visited α) :=
  visitWithin visitor item.weight context item

end Visitor

/-- Callbacks by the kinds of the items they are for, and one for items that have none of their own. -/
structure Callbacks (α γ : Type) where
  ofKinds : Named (Visitor α γ) := []
  ofOthers : Option (Visitor α γ) := none

namespace Callbacks

variable {α γ : Type}

/-- Sets the callback for some kinds. -/
def add (callbacks : Callbacks α γ) (kinds : List String) (callback : Visitor α γ) :
    Callbacks α γ :=
  { callbacks with ofKinds := Named.putAll callbacks.ofKinds (kinds.map (·, callback)) }

/-- The callback for an item: that of the narrowest of its kinds that has one. -/
def find? (callbacks : Callbacks α γ) (item : Item) : Option (Visitor α γ) :=
  (item.kinds.findSome? callbacks.ofKinds.get?).or callbacks.ofOthers

/-- Asks the callback for an item; without one, nothing is collected and the context stays. -/
def visitor (callbacks : Callbacks α γ) : Visitor α γ := fun item context =>
  match callbacks.find? item with
  | some callback => callback item context
  | none => none

end Callbacks

end Stencil
