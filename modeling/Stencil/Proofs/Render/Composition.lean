import Mathlib.Logic.Basic
import Stencil.Proofs.Render.Supplies

/-!
# Properties that the render of a tree has

A property of steps holds of the render of a tag if it holds of what the tag does by itself
(`Node.Own`) and of the renders of its bodies, and if it is kept by composition (`SequenceClosed`), by
the steps that keep the metadata of loops (`CompositionClosed`) and by the scopes that tags enter. What
holds of a tag may be another property than what holds of its bodies, one level further inside
(`LevelClosed`, `LevelClosed.node`).

Where it is one property on all levels (`TreeClosed`), it holds of the render of every body
(`TreeClosed.body`, by induction on the tree) if the guard around each node keeps it (`Carries`).

The parts of a node (`Node.parts`) are the node and everything below it that can be rendered: the
body of a comment and what stands in front of the first alternative of a case are not among them.

A table binds its variable in the scope it has entered itself. What a property says about steps
inside such a scope is a further property, `Inner`, which the scope turns back into that of the tag. The
values that are bound in scopes, which are items and metadata of loops, satisfy `V`.
-/

namespace Stencil

namespace Node

mutual

/-- The node and every node below it that can be rendered. -/
def parts (node : Node) : List Node :=
  node :: match node with
    | .choose _ _ branches => partsOfBranches branches
    | .case _ _ _ clauses => partsOfClauses clauses
    | .loop _ _ body otherwise => partsOfBody body ++ (match otherwise with
      | some nodes => partsOfBody nodes
      | none => [])
    | .table _ _ body => partsOfBody body
    | .block _ kind body =>
      match kind with
      | .comment => []
      | .capture _ | .changed | .repeated _ | .wrap => partsOfBody body
    | .text _ | .output _ | .assign .. | .interrupt .. | .cycle .. | .raw .. | .leaf .. => []
termination_by structural node

/-- The parts of all nodes of a body. -/
def partsOfBody (nodes : List Node) : List Node :=
  match nodes with
  | [] => []
  | node :: rest => parts node ++ partsOfBody rest
termination_by structural nodes

/-- The parts of all bodies behind conditions. -/
def partsOfBranches (branches : List (Option Condition × List Node)) : List Node :=
  match branches with
  | [] => []
  | (_, body) :: rest => partsOfBody body ++ partsOfBranches rest
termination_by structural branches

/-- The parts of all bodies behind alternatives. -/
def partsOfClauses (clauses : List (Option (List Expr) × List Node)) : List Node :=
  match clauses with
  | [] => []
  | (_, body) :: rest => partsOfBody body ++ partsOfClauses rest
termination_by structural clauses

end

theorem self_mem_parts (node : Node) : node ∈ node.parts := by
  unfold parts
  exact List.mem_cons_self

variable {m node : Node} {nodes : List Node} {body : Body}

theorem mem_partsOfBody : m ∈ partsOfBody nodes ↔ ∃ node ∈ nodes, m ∈ node.parts := by
  induction nodes with
  | nil => simp [partsOfBody]
  | cons node rest ih => simp [partsOfBody, ih]

theorem mem_partsOfBranches {branches : List (Option Condition × List Node)} :
    m ∈ partsOfBranches branches ↔ ∃ branch ∈ branches, m ∈ partsOfBody branch.2 := by
  induction branches with
  | nil => simp [partsOfBranches]
  | cons branch rest ih => simp [partsOfBranches, ih]

theorem mem_partsOfClauses {clauses : List (Option (List Expr) × List Node)} :
    m ∈ partsOfClauses clauses ↔ ∃ clause ∈ clauses, m ∈ partsOfBody clause.2 := by
  induction clauses with
  | nil => simp [partsOfClauses]
  | cons clause rest ih => simp [partsOfClauses, ih]

/-! ## Bodies of nodes -/

/-- The bodies that a node may render. -/
def bodies : Node → List Body
  | .text _ | .output _ | .assign .. | .interrupt .. | .cycle .. | .raw .. | .leaf .. => []
  | .choose _ _ branches => branches.map (·.2)
  | .case _ _ _ clauses => clauses.map (·.2)
  | .loop _ _ body otherwise => body :: otherwise.toList
  | .table _ _ body | .block _ _ body => [body]

/-- A node is a tag that may have bodies. -/
def isBlock : Node → Bool
  | .text _ | .output _ | .assign .. | .interrupt .. | .cycle .. | .raw .. | .leaf .. => false
  | .choose .. | .case .. | .loop .. | .table .. | .block .. => true

/-- The bodies among them that are rendered: a comment leaves its body out. -/
def rendered : Node → List Body
  | .block _ .comment _ => []
  | node => node.bodies

theorem mem_bodies_of_mem_rendered (hbody : body ∈ node.rendered) : body ∈ node.bodies := by
  unfold rendered at hbody
  split at hbody
  · cases hbody
  · exact hbody

/-- The parts of a node are the node and the parts of the bodies that are rendered. -/
theorem mem_parts_iff : m ∈ node.parts ↔ m = node ∨ ∃ body ∈ node.rendered, m ∈ partsOfBody body := by
  unfold parts
  rw [List.mem_cons]
  refine or_congr_right ?_
  cases node with
  | choose tag negated branches =>
    simp only [mem_partsOfBranches, rendered, bodies, List.mem_map, exists_exists_and_eq_and]
  | case tag subject preamble clauses =>
    simp only [mem_partsOfClauses, rendered, bodies, List.mem_map, exists_exists_and_eq_and]
  | loop tag header body otherwise => cases otherwise <;> simp [rendered, bodies]
  | table tag header body => simp [rendered, bodies]
  | block tag kind body => cases kind <;> simp [rendered, bodies]
  | text | output | assign | interrupt | cycle | raw | leaf => simp [rendered, bodies]

theorem sizeOf_lt_of_mem_bodies (hbody : body ∈ node.bodies) :
    sizeOf body < sizeOf node := by
  cases node with
  | choose tag negated branches =>
    obtain ⟨⟨guard, inner⟩, hmem, rfl⟩ := List.mem_map.mp hbody
    have hlt := List.sizeOf_lt_of_mem hmem
    simp only [Node.choose.sizeOf_spec, Prod.mk.sizeOf_spec] at hlt ⊢
    omega
  | case tag subject preamble clauses =>
    obtain ⟨⟨guard, inner⟩, hmem, rfl⟩ := List.mem_map.mp hbody
    have hlt := List.sizeOf_lt_of_mem hmem
    simp only [Node.case.sizeOf_spec, Prod.mk.sizeOf_spec] at hlt ⊢
    omega
  | loop tag header inner otherwise =>
    rcases List.mem_cons.mp hbody with rfl | hother
    · simp only [Node.loop.sizeOf_spec]
      omega
    · cases otherwise with
      | none => cases hother
      | some other =>
        obtain rfl := List.mem_singleton.mp hother
        simp only [Node.loop.sizeOf_spec, Option.some.sizeOf_spec]
        omega
  | table tag header inner =>
    obtain rfl := List.mem_singleton.mp hbody
    simp only [Node.table.sizeOf_spec]
    omega
  | block tag kind inner =>
    obtain rfl := List.mem_singleton.mp hbody
    simp only [Node.block.sizeOf_spec]
    omega
  | _ => cases hbody

end Node

/-- Induction on a body: what holds of a body if it holds of all bodies of its nodes, holds of every
body. -/
theorem Body.induction {motive : Body → Prop}
    (step : ∀ body : Body, (∀ node ∈ body, ∀ inner ∈ node.bodies, motive inner) → motive body)
    (body : Body) : motive body :=
  step body fun node hnode inner hinner =>
    have _ : sizeOf inner < sizeOf body :=
      Nat.lt_trans (Node.sizeOf_lt_of_mem_bodies hinner) (List.sizeOf_lt_of_mem hnode)
    Body.induction step inner
termination_by sizeOf body

/-! ## Tables

A table is opened before it renders its cells. -/

namespace TableHeader

open Render

/-- Reads the collection and the attributes of a table, and adds its metadata: its id and its items, if
there is a table. -/
def opened (header : TableHeader) : Render (Option (Nat × List Value)) := do
  match ← header.collection.evaluate with
  | .nil | .bool false => return none
  | collection =>
    let start := (← bound (header.attributes.get? "offset")).getD 0
    let stop := (← bound (header.attributes.get? "limit")).map (start + ·)
    let items := collection.slice start stop
    let cols := (← bound (header.attributes.get? "cols")).getD 0
    let id ← addLoop (.table items.length cols 0 1 1)
    return some (id, items)

/-- The text of a table, given that of its cells. -/
def tableText (cells : String) : String := "<tr class=\"row1\">\n" ++ cells ++ "</tr>\n"

/-- A table is opened, and then it renders its cells in a scope. -/
theorem render_eq (header : TableHeader) (body : Render Rendered) :
    header.render body = do
      match ← header.opened with
      | none => return {}
      | some (id, items) =>
        return { text := tableText (← withScope [("tablerowloop", .loop id)]
          (renderCells id header.itemName body items)) } := by
  unfold TableHeader.render opened
  rw [bind_assoc]
  congr 1
  funext collection
  split
  · rfl
  · rfl
  · unfold renderRows
    simp only [bind_assoc, pure_bind]
    rfl

end TableHeader

namespace Render

variable {α β : Type}

/-! ## What nodes do by themselves -/

/-- The values a table goes through, if there is a table. -/
def cellsOf : Option (Nat × List Value) → List Value
  | some (_, items) => items
  | none => []

end Render

open Render

/-- A property holds of what a node does by itself, besides rendering its bodies. -/
def Node.Own (P : (α : Type) → Render α → Prop) (V : Value → Prop) : Node → Prop
  | .text _ | .interrupt .. | .raw .. => True
  | .output o => P String o.render
  | .assign _ target source => P Unit (assignOutput target source)
  | .cycle _ group values => P String (Render.cycle group values)
  | .leaf tag kind => P String (kind.render tag.markup)
  | .choose _ _ branches => ∀ branch ∈ branches, ∀ c ∈ branch.1, P Bool c.holds
  | .case _ subject _ clauses => ∀ clause ∈ clauses, ∀ values ∈ clause.1, ∀ value ∈ values,
      P Bool (Comparison.holds { left := subject, operator := some "==", right := value })
  | .loop _ header _ _ => Supplies P V id header.itemsOf
  | .table _ header _ => Supplies P V cellsOf header.opened
  | .block _ kind _ =>
    match kind with
    | .capture target => ∀ text, P Unit (assignText target text)
    | .changed => ∀ body, P Rendered (withScope [] body) → P Rendered (renderChanged body)
    | .comment | .repeated _ | .wrap => True

namespace Render

/-- A property holds of what a node does by itself, and passes from the render of the node to the guarded
render inside a body. -/
structure Carries (P : (α : Type) → Render α → Prop) (V : Value → Prop) (node : Node) : Prop where
  own : node.Own P V
  placed : P Rendered node.render → P Rendered (placed node node.render)

/-- A property of steps that composition keeps, and the step by which bodies count their nodes. -/
structure SequenceClosed (P : (α : Type) → Render α → Prop) : Prop where
  pure {α : Type} (a : α) : P α (pure a)
  bind {α β : Type} {x : Render α} {f : α → Render β} :
    P α x → (∀ a, P β (f a)) → P β (x >>= f)
  countScore (n : Nat) : P Unit (modifyCounts fun c => { c with score := c.score + n })

/-- Such a property of the steps by which tags keep the metadata of loops as well. -/
structure CompositionClosed (P : (α : Type) → Render α → Prop) : Prop extends SequenceClosed P where
  loops : P Loops Render.loops
  innermostLoop : P (Option Nat) Render.innermostLoop
  addLoop (info : LoopInfo) : P Nat (Render.addLoop info)
  advanceLoop (id : Nat) : P Unit (Render.advanceLoop id)
  withLoop {α : Type} {x : Render α} (id : Nat) : P α x → P α (Render.withLoop id x)

/-- A property `P` of the renders of bodies and a property `Outer` of the tags around them, with the
property `Inner` of steps inside a scope that a tag has entered. -/
structure LevelClosed (P Inner Outer : (α : Type) → Render α → Prop) (V : Value → Prop) : Prop where
  below : CompositionClosed P
  above : CompositionClosed Outer
  rise {α : Type} {x : Render α} : P α x → Outer α x
  withScope {α : Type} {x : Render α} (scope : Scope) (hscope : ∀ entry ∈ scope, V entry.2) :
    Inner α x → Outer α (Render.withScope scope x)
  inner {α : Type} {x : Render α} : P α x → Inner α x
  innerBind {α β : Type} {x : Render α} {f : α → Render β} :
    Inner α x → (∀ a, Inner β (f a)) → Inner β (x >>= f)
  setLocal (name : String) {v : Value} (hv : V v) : Inner Unit (Render.setLocal name v)
  loopValue (id : Nat) : V (.loop id)

/-- A property of steps that is kept by the ways in which tags put the renders of their bodies together. -/
structure TreeClosed (P Inner : (α : Type) → Render α → Prop) (V : Value → Prop) : Prop
    extends CompositionClosed P where
  withScope {α : Type} {x : Render α} (scope : Scope) (hscope : ∀ entry ∈ scope, V entry.2) :
    Inner α x → P α (Render.withScope scope x)
  inner {α : Type} {x : Render α} : P α x → Inner α x
  innerBind {α β : Type} {x : Render α} {f : α → Render β} :
    Inner α x → (∀ a, Inner β (f a)) → Inner β (x >>= f)
  setLocal (name : String) {v : Value} (hv : V v) : Inner Unit (Render.setLocal name v)
  loopValue (id : Nat) : V (.loop id)

namespace SequenceClosed

variable {P : (α : Type) → Render α → Prop} {V : Value → Prop} (h : SequenceClosed P)

include h

theorem scored (size : Nat) {step : Render Rendered} (hstep : P Rendered step) :
    P Rendered (Render.scored size step) :=
  h.bind (h.countScore size) fun _ => hstep

/-! ## Bodies -/

theorem nodes {nodes : List Node} (hnodes : ∀ node ∈ nodes, P Rendered (placed node node.render)) :
    P Rendered (Node.renderNodes nodes) := by
  induction nodes with
  | nil => exact h.pure _
  | cons node rest ih =>
    obtain ⟨hnode, hrest⟩ := List.forall_mem_cons.mp hnodes
    unfold Node.renderNodes
    refine h.bind hnode fun _ => ?_
    -- a signal of the node leaves the rest out
    split
    · exact h.pure _
    · exact h.bind (ih hrest) fun _ => h.pure _

theorem body {body : Body} (hnodes : ∀ node ∈ body, P Rendered (placed node node.render)) :
    P Rendered body.render :=
  h.scored _ (h.nodes hnodes)

/-! ## Choices -/

theorem branches {bs : List (Option Condition × Body)} (negated : Bool)
    (hguards : ∀ branch ∈ bs, ∀ c ∈ branch.1, P Bool c.holds)
    (hbodies : ∀ branch ∈ bs, P Rendered (Body.render branch.2)) :
    P Rendered (Node.renderBranches bs negated) := by
  induction bs generalizing negated with
  | nil => exact h.pure _
  | cons branch rest ih =>
    obtain ⟨guard, body⟩ := branch
    obtain ⟨hguard, hguards⟩ := List.forall_mem_cons.mp hguards
    obtain ⟨hbody, hbodies⟩ := List.forall_mem_cons.mp hbodies
    have htaken (holds : Bool) : P Rendered (
        if holds != negated then Body.render body else Node.renderBranches rest false) := by
      split
      · exact hbody
      · exact ih false hguards hbodies
    unfold Node.renderBranches
    split
    · next c => exact h.bind (hguard c rfl) htaken
    · exact h.bind (h.pure _) htaken

theorem renderAlternatives (subject : Expr) {body : Render Rendered} (hbody : P Rendered body)
    (matched : Bool) (values : List Expr) (hvalues : ∀ value ∈ values,
      P Bool (Comparison.holds { left := subject, operator := some "==", right := value })) :
    P (Rendered × Bool) (Render.renderAlternatives subject body matched values) := by
  induction values generalizing matched with
  | nil => exact h.pure _
  | cons value rest ih =>
    have hrest (matched : Bool) := ih matched fun v hv => hvalues v (List.mem_cons_of_mem _ hv)
    refine h.bind (hvalues value List.mem_cons_self) fun _ => ?_
    split
    · refine h.bind hbody fun _ => ?_
      split
      · exact h.pure _
      · exact h.bind (hrest true) fun _ => h.pure _
    · exact hrest matched

theorem clauses {cs : List (Option (List Expr) × Body)} (subject : Expr) (matched : Bool)
    (hvalues : ∀ clause ∈ cs, ∀ values ∈ clause.1, ∀ value ∈ values,
      P Bool (Comparison.holds { left := subject, operator := some "==", right := value }))
    (hbodies : ∀ clause ∈ cs, P Rendered (Body.render clause.2)) :
    P Rendered (Node.renderClauses cs subject matched) := by
  induction cs generalizing matched with
  | nil => exact h.pure _
  | cons clause rest ih =>
    obtain ⟨guard, body⟩ := clause
    obtain ⟨hself, hvalues⟩ := List.forall_mem_cons.mp hvalues
    obtain ⟨hbody, hbodies⟩ := List.forall_mem_cons.mp hbodies
    have hrest (matched : Bool) := ih matched hvalues hbodies
    cases guard with
    | some values =>
      unfold Node.renderClauses
      refine h.bind (h.renderAlternatives subject hbody matched values (hself values rfl))
        fun found => ?_
      dsimp only
      split
      · exact h.pure _
      · exact h.bind (hrest _) fun _ => h.pure _
    | none =>
      unfold Node.renderClauses
      split
      · exact hrest true
      · exact hbody

theorem renderRepeatedly {body : Render Rendered} (hbody : P Rendered body) (n : Nat) :
    P String (Render.renderRepeatedly body n) := by
  induction n with
  | zero => exact h.pure _
  | succ n ih => exact h.bind hbody fun _ => h.bind ih fun _ => h.pure _

/-- A node without bodies does nothing but what it does by itself. -/
theorem leaf {node : Node} (hown : node.Own P V) (hleaf : node.isBlock = false) :
    P Rendered node.render := by
  cases node with
  | text | interrupt | raw => exact h.pure _
  | output o =>
    have houtput : P String o.render := hown
    exact h.bind houtput fun _ => h.pure _
  | assign tag target source =>
    have hassign : P Unit (assignOutput target source) := hown
    exact h.bind hassign fun _ => h.pure _
  | cycle tag group values =>
    have hcycle : P String (Render.cycle group values) := hown
    exact h.bind hcycle fun _ => h.pure _
  | leaf tag kind =>
    have hrender : P String (kind.render tag.markup) := hown
    exact h.bind hrender fun _ => h.pure _
  | choose | case | loop | table | block => cases hleaf

end SequenceClosed

namespace LevelClosed

variable {P Inner Outer : (α : Type) → Render α → Prop} {V : Value → Prop}
  (h : LevelClosed P Inner Outer V)

include h

/-! ## Loops -/

theorem withEmptyScope {x : Render α} (hx : P α x) : Outer α (Render.withScope [] x) :=
  h.withScope [] (fun _ hentry => nomatch hentry) (h.inner hx)

theorem renderItems (id : Nat) (itemName : String) {body : Render Rendered}
    (hbody : P Rendered body) (items : List Value) (hitems : ∀ v ∈ items, V v) :
    Outer String (Render.renderItems id itemName body items) := by
  induction items with
  | nil => exact h.above.pure _
  | cons item rest ih =>
    have hscope : ∀ entry ∈ Named.put [("forloop", .loop id)] itemName item, V entry.2 :=
      Named.forall_put (List.forall_mem_singleton.mpr (h.loopValue id)) (hitems item List.mem_cons_self)
    -- the body is rendered in a scope of its own for every item
    refine h.above.bind (h.withScope _ hscope (h.inner hbody)) fun _ =>
      h.above.bind (h.above.advanceLoop id) fun _ => ?_
    split
    · exact h.above.pure _
    · exact h.above.bind (ih fun v hv => hitems v (List.mem_cons_of_mem _ hv)) fun _ => h.above.pure _

theorem loop {header : LoopHeader} (hsupplies : Supplies Outer V id header.itemsOf)
    {body : Render Rendered} {otherwise : Option (Render Rendered)} (hbody : P Rendered body)
    (hotherwise : ∀ step, otherwise = some step → P Rendered step) :
    Outer Rendered (header.render body otherwise) := by
  unfold LoopHeader.render
  refine hsupplies.goOn fun items hitems => ?_
  split
  · split
    · exact h.withEmptyScope (hotherwise _ rfl)
    · exact h.above.pure _
  · exact h.above.bind h.above.innermostLoop fun _ => h.above.bind (h.above.addLoop _) fun _ =>
      h.above.bind (h.above.withLoop _ (h.renderItems _ _ hbody _ hitems)) fun _ => h.above.pure _

theorem renderCells (id : Nat) (itemName : String) {body : Render Rendered}
    (hbody : P Rendered body) (items : List Value) (hitems : ∀ v ∈ items, V v) :
    Inner String (Render.renderCells id itemName body items) := by
  induction items with
  | nil => exact h.inner (h.below.pure _)
  | cons item rest ih =>
    have hrest := ih fun v hv => hitems v (List.mem_cons_of_mem _ hv)
    -- the variable is bound in the scope of the table, which is still open
    refine h.innerBind (h.setLocal _ (hitems item List.mem_cons_self)) fun _ =>
      h.innerBind (h.inner h.below.loops) fun loops => ?_
    split
    · exact h.inner (h.below.pure _)
    · refine h.innerBind (h.inner hbody) fun _ =>
        h.innerBind (h.inner (h.below.advanceLoop id)) fun _ => ?_
      split
      · exact h.inner (h.below.pure _)
      · exact h.innerBind hrest fun _ => h.inner (h.below.pure _)

theorem table {header : TableHeader} (hsupplies : Supplies Outer V cellsOf header.opened)
    {body : Render Rendered} (hbody : P Rendered body) : Outer Rendered (header.render body) := by
  rw [TableHeader.render_eq]
  refine hsupplies.goOn fun opened hitems => ?_
  split
  · exact h.above.pure _
  · next id items =>
    have hscope : ∀ entry ∈ [("tablerowloop", Value.loop id)], V entry.2 := by
      intro entry hentry
      rw [List.mem_singleton.mp hentry]
      exact h.loopValue id
    exact h.above.bind (h.withScope _ hscope (h.renderCells _ _ hbody _ hitems)) fun _ =>
      h.above.pure _

/-! ## Nodes -/

theorem block {tag : Tag} {kind : BlockKind} {nodes : List Node}
    (hown : (Node.block tag kind nodes).Own Outer V) {body : Render Rendered}
    (hbody : kind ≠ .comment → P Rendered body) : Outer Rendered (kind.render body) := by
  -- a comment does not render its body
  cases kind with
  | capture target =>
    exact h.above.bind (h.rise (hbody (by simp))) fun _ => h.above.bind (hown _) fun _ => h.above.pure _
  | changed => exact hown _ (h.withEmptyScope (hbody (by simp)))
  | comment => exact h.above.pure _
  | repeated n =>
    exact h.above.bind (h.rise (h.below.renderRepeatedly (hbody (by simp)) n)) fun _ => h.above.pure _
  | wrap => exact h.rise (hbody (by simp))

/-- **The render of a node has a property** that what it does by itself has, if its bodies have it one
level further inside. -/
theorem node {node : Node} (hbelow : node.Own P V) (habove : node.Own Outer V)
    (hbodies : ∀ body ∈ node.rendered, P Rendered body.render) : Outer Rendered node.render := by
  cases node with
  | choose tag negated bs =>
    unfold Node.render
    exact h.withEmptyScope (h.below.branches negated hbelow fun branch hbranch =>
      hbodies _ (List.mem_map_of_mem hbranch))
  | case tag subject preamble cs =>
    unfold Node.render
    exact h.withEmptyScope (h.below.clauses subject false hbelow fun clause hclause =>
      hbodies _ (List.mem_map_of_mem hclause))
  | loop tag header body otherwise =>
    have hbody : P Rendered (Body.render body) := hbodies body List.mem_cons_self
    cases otherwise with
    | none =>
      unfold Node.render
      refine h.loop habove hbody fun _ hstep => ?_
      cases hstep
    | some other =>
      unfold Node.render
      refine h.loop habove hbody fun step hstep => ?_
      cases hstep
      exact hbodies other (List.mem_cons_of_mem _ List.mem_cons_self)
  | table tag header body =>
    unfold Node.render
    exact h.table habove (hbodies body List.mem_cons_self)
  | block tag kind body =>
    unfold Node.render
    refine h.block habove fun hkind => hbodies body ?_
    cases kind with
    | comment => exact absurd rfl hkind
    | _ => exact List.mem_cons_self
  | text | output | assign | interrupt | cycle | raw | leaf => exact h.above.leaf habove rfl

end LevelClosed

namespace TreeClosed

variable {P Inner : (α : Type) → Render α → Prop} {V : Value → Prop} (h : TreeClosed P Inner V)

include h

/-- It is one property on all levels. -/
theorem level : LevelClosed P Inner P V where
  below := h.toCompositionClosed
  above := h.toCompositionClosed
  rise hx := hx
  withScope := h.withScope
  inner := h.inner
  innerBind := h.innerBind
  setLocal := h.setLocal
  loopValue := h.loopValue

/-- **The render of a body has every property that the parts of its nodes carry.** Induction on the tree. -/
theorem body (body : Body) (hparts : ∀ m ∈ Node.partsOfBody body, Carries P V m) :
    P Rendered body.render := by
  induction body using Body.induction with
  | step body ih =>
    refine h.toCompositionClosed.body fun node hnode => ?_
    have hnodeParts : ∀ m ∈ node.parts, Carries P V m := fun m hm =>
      hparts m (Node.mem_partsOfBody.mpr ⟨node, hnode, hm⟩)
    have hself : Carries P V node := hnodeParts node node.self_mem_parts
    refine hself.placed (h.level.node hself.own hself.own fun inner hinner => ?_)
    exact ih node hnode inner (Node.mem_bodies_of_mem_rendered hinner) fun m hm =>
      hnodeParts m (Node.mem_parts_iff.mpr (.inr ⟨inner, hinner, hm⟩))

/-- **The render of a node has every property that its parts carry.** -/
theorem node (node : Node) (hparts : ∀ m ∈ node.parts, Carries P V m) : P Rendered node.render := by
  have hself : Carries P V node := hparts node node.self_mem_parts
  exact h.level.node hself.own hself.own fun body hbody =>
    h.body body fun m hm => hparts m (Node.mem_parts_iff.mpr (.inr ⟨body, hbody, hm⟩))

theorem nodes (nodes : List Node) (hparts : ∀ m ∈ Node.partsOfBody nodes, Carries P V m) :
    P Rendered (Node.renderNodes nodes) := by
  refine h.toCompositionClosed.nodes fun node hnode => ?_
  have hnodeParts : ∀ m ∈ node.parts, Carries P V m := fun m hm =>
    hparts m (Node.mem_partsOfBody.mpr ⟨node, hnode, hm⟩)
  exact (hnodeParts node node.self_mem_parts).placed (h.node node hnodeParts)

end TreeClosed

end Render

end Stencil
