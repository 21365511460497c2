import Stencil.Tree.Item

/-!
Outlines: the tree of a template laid out as nested fields, for tools that show or compare trees.
Expressions stand in an outline as they are.
-/

namespace Stencil

/-- A tree laid out as nested fields. -/
inductive Outline where
  | absent
  | flag (b : Bool)
  | number (n : Nat)
  | text (s : String)
  | expr (e : Expr)
  | list (items : List Outline)
  | fields (entries : List (String × Outline))

namespace Outline

/-- An optional part. -/
def ofOption {α : Type} (f : α → Outline) (part : Option α) : Outline := part.elim .absent f

/-- Named expressions, as pairs. -/
def ofNamed (entries : List (String × Expr)) : Outline :=
  .list (entries.map fun (name, e) => .list [.text name, .expr e])

/-- A filter call. -/
def ofFilter (call : FilterCall) : Outline :=
  .fields [("name", .text call.name), ("args", .list (call.args.map .expr)),
    ("kwargs", ofNamed call.kwargs)]

/-- An output. -/
def ofOutput (o : Output) : Outline :=
  .fields [("node", .text "Output"), ("line", ofOption .number o.line), ("markup", .text o.markup),
    ("expr", .expr o.pipeline.expr), ("filters", .list (o.pipeline.filters.map ofFilter))]

/-- The comparisons of a condition, each with the word behind it. -/
def ofLinks (c : Condition) : Outline :=
  .list (c.links.map fun (comparison, relation) => .list [.expr comparison.left,
    ofOption .text comparison.operator, .expr comparison.right, ofOption .text relation])

/-- A body and the condition it stands behind. -/
def ofCondition (c : Condition) (body : Outline) : Outline :=
  .fields [("chain", ofLinks c), ("body", body)]

/-- A body that stands behind an else. -/
def ofFallback (body : Outline) : Outline := .fields [("else", .flag true), ("body", body)]

/-- The comparison of a subject with one alternative. -/
def alternative (subject value : Expr) : Condition :=
  .single { left := subject, operator := some "==", right := value }

/-- The fields of the head of a loop. -/
def loopFields (header : LoopHeader) : List (String × Outline) :=
  [("var", .text header.itemName), ("collection", .expr header.collection),
    ("name", .text header.name), ("reversed", .flag header.reversed),
    ("limit", ofOption .expr header.limit), ("offset", ofOption .expr header.offset),
    ("offset_continue", .flag header.continues)]

/-- The fields of the head of a table. -/
def tableFields (header : TableHeader) : List (String × Outline) :=
  [("var", .text header.itemName), ("collection", .expr header.collection),
    ("attributes", ofNamed header.attributes)]

/-- The fields all tags have, and those a tag has besides. -/
def ofTag (node : Node) (tag : Tag) (others : List (String × Outline)) : Outline :=
  .fields ([("node", .text ((Item.tagKinds node).headD "")), ("tag", .text tag.name),
    ("markup", .text tag.markup), ("line", ofOption .number tag.line),
    ("blank", .flag node.isBlank)] ++ others)

/-- A body, given the outlines of its nodes. -/
def ofNodes (nodes : List Node) (outlines : List Outline) : Outline :=
  .fields [("blank", .flag (Node.bodyIsBlank nodes)), ("nodes", .list outlines)]

mutual

/-- The outline of a node. -/
def ofNode (node : Node) : Outline :=
  match node with
  | .text s => .text s
  | .output o => ofOutput o
  | .assign tag target source =>
    ofTag (.assign tag target source) tag [("to", .text target), ("source", ofOutput source)]
  | .interrupt tag signal => ofTag (.interrupt tag signal) tag []
  | .cycle tag group values =>
    ofTag (.cycle tag group values) tag [("values", .list (values.map .expr))]
  | .raw tag s => ofTag (.raw tag s) tag [("text", .text s)]
  | .leaf tag kind => ofTag (.leaf tag kind) tag []
  | .choose tag negated branches =>
    ofTag (.choose tag negated branches) tag [("branches", .list (ofBranches branches))]
  | .case tag subject preamble clauses =>
    ofTag (.case tag subject preamble clauses) tag
      [("left", .expr subject), ("branches", .list (ofClauses subject clauses))]
  | .loop tag header body otherwise =>
    ofTag (.loop tag header body otherwise) tag (loopFields header ++
      [("body", ofNodes body (ofAll body)), ("else_body", match otherwise with
        | some nodes => ofNodes nodes (ofAll nodes)
        | none => .absent)])
  | .table tag header body =>
    ofTag (.table tag header body) tag
      (tableFields header ++ [("body", ofNodes body (ofAll body))])
  | .block tag (.capture target) body =>
    ofTag (.block tag (.capture target) body) tag
      [("to", .text target), ("body", ofNodes body (ofAll body))]
  | .block tag kind body =>
    ofTag (.block tag kind body) tag [("body", ofNodes body (ofAll body))]

/-- The outlines of nodes. -/
def ofAll (nodes : List Node) : List Outline :=
  match nodes with
  | [] => []
  | node :: rest => ofNode node :: ofAll rest

/-- The outlines of the parts of a choice. -/
def ofBranches (branches : List (Option Condition × List Node)) : List Outline :=
  match branches with
  | [] => []
  | (some c, body) :: rest => ofCondition c (ofNodes body (ofAll body)) :: ofBranches rest
  | (none, body) :: rest => ofFallback (ofNodes body (ofAll body)) :: ofBranches rest

/-- The outlines of the parts of a case, one for every alternative. -/
def ofClauses (subject : Expr) (clauses : List (Option (List Expr) × List Node)) : List Outline :=
  match clauses with
  | [] => []
  | (some values, body) :: rest =>
    let inner := ofNodes body (ofAll body)
    values.map (fun value => ofCondition (alternative subject value) inner) ++
      ofClauses subject rest
  | (none, body) :: rest => ofFallback (ofNodes body (ofAll body)) :: ofClauses subject rest

end

/-- The outline of a body. -/
def ofBody (body : Body) : Outline := ofNodes body (ofAll body)

end Outline

end Stencil
