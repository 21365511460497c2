import Stencil.Tree.Node

/-!
Items: whatever stands in the tree of a template, seen in one way. Every item has its children;
literal text and literal values have none, and what is nil is left out.
-/

namespace Stencil

/-- Something that stands in the tree of a template. -/
inductive Item where
  | document (body : Body)
  | part (body : Body)
  /-- A node other than text and outputs. -/
  | tag (node : Node)
  | output (o : Output)
  | filter (call : FilterCall)
  /-- A condition with the body behind it, if it has one. -/
  | condition (c : Condition) (body : Option Body)
  | fallback (body : Body)
  | expr (e : Expr)

namespace Item

/-- A node as an item. -/
def ofNode : Node → Item
  | .text s => .expr (.value (.str s))
  | .output o => .output o
  | node => .tag node

/-- Whether an item is nil. -/
def isNil : Item → Bool
  | .expr (.value .nil) => true
  | _ => false

/-- The nodes of a body as items. -/
def ofBody (body : Body) : List Item := body.map ofNode

/-- A part of a choice as an item. -/
def ofBranch : Option Condition × Body → Item
  | (some c, body) => .condition c (some body)
  | (none, body) => .fallback body

/-- The parts of a case as items: one condition for every alternative. -/
def ofClause (subject : Expr) : Option (List Expr) × Body → List Item
  | (some values, body) => values.map fun value =>
      .condition (.single { left := subject, operator := some "==", right := value }) (some body)
  | (none, body) => [.fallback body]

/-- The children of a node, nil ones included. -/
def ofParts : Node → List Item
  | .text _ => []
  | .output o => .expr o.pipeline.expr :: o.pipeline.filters.map .filter
  | .assign _ _ source => [.output source]
  | .interrupt .. | .leaf .. => []
  | .cycle _ _ values => values.map .expr
  | .raw _ s => [.expr (.value (.str s))]
  | .choose _ _ branches => branches.map ofBranch
  | .case _ subject _ clauses => .expr subject :: clauses.flatMap (ofClause subject)
  | .loop _ header body otherwise =>
    .part body :: (otherwise.map Item.part).toList ++
      (header.limit.toList ++ header.offset.toList ++ [header.collection]).map .expr
  | .table _ header body =>
    ofBody body ++ header.attributes.map (fun entry => .expr entry.2) ++ [.expr header.collection]
  | .block _ _ body => ofBody body

/-- The keys of a path as items. -/
def ofPath (path : List Step) : List Item := path.map fun step => .expr step.key

/-- The children of an expression, nil ones included. -/
def ofExpr : Expr → List Item
  | .value _ => []
  | .lookup root path =>
    match root.name? with
    | some _ => ofPath path
    | none => .expr root :: ofPath path
  | .range first last => [.expr first, .expr last]

/-- The children of a condition, nil ones included. -/
def ofCondition (c : Condition) (body : Option Body) : List Item :=
  let comparison := c.head
  let next := match c with
    | .single _ => []
    | .joined _ _ rest => [Item.condition rest none]
  [.expr comparison.left, .expr comparison.right] ++ next ++ (body.map Item.part).toList

/-- The children of an item, nil ones included. -/
def parts : Item → List Item
  | .document body | .part body => ofBody body
  | .tag node => ofParts node
  | .output o => .expr o.pipeline.expr :: o.pipeline.filters.map .filter
  | .filter call => (call.args ++ call.kwargs.map (·.2)).map .expr
  | .condition c body => ofCondition c body
  | .fallback body => [.part body]
  | .expr e => ofExpr e

/-- The children of an item. -/
def children (item : Item) : List Item := item.parts.filter (!·.isNil)

/-! ### Kinds of items -/

/-- The names of the kinds a tag belongs to, the narrowest first. -/
def tagKinds : Node → List String
  | .choose _ false _ => ["If", "Block", "Tag"]
  | .choose _ true _ => ["Unless", "If", "Block", "Tag"]
  | .case .. => ["Case", "Block", "Tag"]
  | .loop .. => ["For", "Block", "Tag"]
  | .table .. => ["TableRow", "Block", "Tag"]
  | .interrupt _ .leave => ["Break", "Tag"]
  | .interrupt _ .skip => ["Continue", "Tag"]
  | .raw .. => ["Raw", "Block", "Tag"]
  | .assign .. => ["Assign", "Tag"]
  | .cycle .. => ["Cycle", "Tag"]
  | .leaf _ .shout => ["Shout", "Tag"]
  | .leaf _ .scopeDepth => ["ScopeDepth", "Tag"]
  | .leaf _ .plain => ["Plain", "Tag"]
  | .block _ (.capture _) _ => ["Capture", "Block", "Tag"]
  | .block _ .changed _ => ["Ifchanged", "Block", "Tag"]
  | .block _ .comment _ => ["Comment", "Block", "Tag"]
  | .block _ (.repeated _) _ => ["Repeat", "Block", "Tag"]
  | .block _ .wrap _ => ["Wrap", "Block", "Tag"]
  | .text _ => ["str"]
  | .output _ => ["Output"]

/-- The names of the kinds a value belongs to, the narrowest first. -/
def valueKinds : Value → List String
  | .bool _ => ["bool", "int"]
  | .int _ => ["int"]
  | .float _ => ["float"]
  | .str _ => ["str"]
  | .range _ => ["range"]
  | .literal _ => ["MethodLiteral", "Expr"]
  | _ => []

/-- The names of the kinds an item belongs to, the narrowest first. -/
def kinds : Item → List String
  | .document _ => ["Document", "BlockBody"]
  | .part _ => ["BlockBody"]
  | .tag node => tagKinds node
  | .output _ => ["Output"]
  | .filter _ => ["FilterCall"]
  | .condition .. => ["Condition"]
  | .fallback _ => ["ElseCondition", "Condition"]
  | .expr (.value v) => valueKinds v
  | .expr (.lookup ..) => ["VariableLookup", "Expr"]
  | .expr (.range ..) => ["RangeLookup", "Expr"]

/-- The name of the narrowest kind of an item. -/
def kind (item : Item) : String := item.kinds.headD ""

/-- How many nodes or bodies a tag holds directly. -/
def directCount : Node → Nat
  | .choose _ _ branches => branches.length
  | .case _ subject _ clauses => (clauses.flatMap (ofClause subject)).length
  | .loop _ _ _ otherwise => if otherwise.isSome then 2 else 1
  | .table _ _ body | .block _ _ body => body.length
  | .raw .. => 1
  | _ => 0

/-- A line summary of a tag or body: its text, its raw markup, and how many nodes it holds. -/
def summary? : Item → Option (String × Option String × Nat)
  | .document body =>
    some ("<Document nodes=" ++ toString body.length ++ ">", none, body.length)
  | .part body => some ("<BlockBody nodes=" ++ toString body.length ++ ">", none, body.length)
  | .tag node => node.tag?.map fun tag =>
    let line := match tag.line with
      | some n => toString n
      | none => "None"
    ("<" ++ (tagKinds node).headD "" ++ " " ++ Text.quoted (Text.trimText tag.raw) ++ " line=" ++
      line ++ ">", some tag.raw, directCount node)
  | _ => none

end Item

end Stencil
