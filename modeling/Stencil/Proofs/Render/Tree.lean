import Stencil.Proofs.Render.Composition
import Stencil.Proofs.Render.Evaluation

/-!
# Properties that every rendered node has

A property of steps that evaluations have (`Evaluates`), that the changes tags make to the state have,
and that scopes and loops keep (`RenderClosed`) holds of the render of every node whose parts support it:
`RenderClosed.node` and `RenderClosed.body`.

A property may hold of some nodes only because of what they assign, what they look up in the registers,
or where their loops start. What it needs of a node in these places is said in `Supports`. A property of
everything that is done to the registers (`RegisterClosed`) needs nothing there but the assignment.
-/

namespace Stencil

namespace Node

/-- The variable a node assigns for the rest of the render, if it is of a kind that assigns one. -/
def target? : Node → Option String
  | .assign _ target _ => some target
  | .block _ (.capture target) _ => some target
  | _ => none

/-- The header of a loop. -/
def header? : Node → Option LoopHeader
  | .loop _ header _ _ => some header
  | _ => none

/-- A node asks what was remembered, besides where a loop is to go on. -/
def recalls : Node → Bool
  | .cycle .. | .block _ .changed _ => true
  | _ => false

end Node

namespace Render

variable {α β : Type}

/-- A property of steps that the leaves of evaluations have, and the changes that tags make to registers,
counts and loops. -/
structure StateClosed (P : (α : Type) → Render α → Prop) : Prop extends StepClosed P where
  modifyRegisters (f : Registers → Registers) (hstack : ∀ r, (f r).loopStack = r.loopStack)
    (hoffset : ∀ r name, (f r).offset name = r.offset name) : P Unit (Render.modifyRegisters f)
  countScore (n : Nat) : P Unit (modifyCounts fun c => { c with score := c.score + n })
  countAssigned (n : Nat) : P Unit (modifyCounts fun c => { c with assigned := c.assigned + n })
  addLoop (info : LoopInfo) : P Nat (Render.addLoop info)
  advanceLoop (id : Nat) : P Unit (Render.advanceLoop id)
  withLoop {α : Type} {x : Render α} (id : Nat) : P α x → P α (Render.withLoop id x)

/-- A property of steps that the steps of a render have, with the property `Inner` of steps inside
a scope that a tag has entered. -/
structure RenderClosed (P Inner : (α : Type) → Render α → Prop) : Prop
    extends Evaluates P, StateClosed P where
  withScope {α : Type} {x : Render α} (scope : Scope) : Inner α x → P α (Render.withScope scope x)
  inner {α : Type} {x : Render α} : P α x → Inner α x
  innerBind {α β : Type} {x : Render α} {f : α → Render β} :
    Inner α x → (∀ a, Inner β (f a)) → Inner β (x >>= f)
  setLocal (name : String) (v : Value) : Inner Unit (Render.setLocal name v)

/-- A property of looking at the registers and of noting loops. -/
structure RegisterClosed (P : (α : Type) → Render α → Prop) : Prop where
  registers : P Registers Render.registers
  visit (v : Visit) : P Unit (Render.visit v)

/-- What a property needs of a node: that it holds of assigning the variable of the node, of what the node
does with the registers, and that it passes from the render of the node to the guarded render inside a
body. -/
structure Supports (P : (α : Type) → Render α → Prop) (node : Node) : Prop where
  assign (name : String) (hname : node.target? = some name) (v : Value) :
    P Unit (Render.assign name v)
  registers (hrecalls : node.recalls) : P Registers Render.registers
  items (header : LoopHeader) (hheader : node.header? = some header) :
    P (List Value) header.itemsOf
  placed : P Rendered node.render → P Rendered (placed node node.render)

namespace StateClosed

variable {P : (α : Type) → Render α → Prop} (h : StateClosed P) {V : Value → Prop}

include h

/-! ## What nodes do by themselves -/

theorem cycle (hregisters : P Registers Render.registers) {group : Expr} {values : List Expr}
    (hgroup : P Value group.evaluate) (hvalues : ∀ e ∈ values, P Value e.evaluate) :
    P String (Render.cycle group values) := by
  have hvalue (index : Nat) : P Value (values[index]?.getD (.value .nil)).evaluate := by
    cases hget : values[index]? with
    | none =>
      rw [Option.getD_none, Expr.evaluate]
      exact h.pure _
    | some e => exact hvalues e (List.mem_of_getElem? hget)
  unfold Render.cycle
  split
  · exact h.pure _
  · refine h.bind (h.modifyRegisters _ (fun _ => rfl) fun _ _ => rfl) fun _ =>
      h.bind hgroup fun _ => ?_
    split
    · exact h.throw (Failure.isRefusal_host _)
    · exact h.bind hregisters fun _ => h.bind (hvalue _) fun _ =>
        h.bind (h.modifyRegisters _ (fun _ => rfl) fun _ _ => rfl) fun _ => h.outputText _

theorem startOf {header : LoopHeader} (hoffset : ∀ e ∈ header.offset, P Value e.evaluate)
    (hregisters : header.continues → P Registers Render.registers) : P Int header.startOf := by
  unfold LoopHeader.startOf
  split
  · next hcontinues => exact h.bind (hregisters hcontinues) fun _ => h.pure _
  · exact h.bind (h.bound hoffset) fun _ => h.pure _

theorem renderChanged (hregisters : P Registers Render.registers) {body : Render Rendered}
    (hbody : P Rendered (withScope [] body)) : P Rendered (Render.renderChanged body) := by
  unfold Render.renderChanged
  refine h.bind hbody fun _ => h.bind hregisters fun _ => ?_
  split
  · exact h.pure _
  · exact h.bind (h.modifyRegisters _ (fun _ => rfl) fun _ _ => rfl) fun _ => h.pure _

section

variable (hslice : ∀ v start stop, V v → ∀ x ∈ v.slice start stop, V x)

include hslice

/-- A property of noting loops holds of choosing the items of a loop, which are part of a slice. -/
theorem suppliesItems {header : LoopHeader}
    (hexprs : ∀ e ∈ header.exprs, Supplies P V only e.evaluate)
    (hvisit : ∀ v, P Unit (Render.visit v))
    (hregisters : header.continues → P Registers Render.registers) :
    Supplies P V id header.itemsOf := by
  obtain ⟨hcollection, hbounds⟩ := List.forall_mem_cons.mp hexprs
  obtain ⟨hoffset, hlimit⟩ := List.forall_mem_append.mp hbounds
  have hstore : P Unit (Render.modifyRegisters fun r => { r with offsets := some (r.offsets.getD []) }) := by
    refine h.modifyRegisters _ (fun _ => rfl) fun r _ => ?_
    -- a store of places that is made when a loop is met has no place yet
    cases hoffsets : r.offsets <;> simp [Registers.offset, hoffsets]
  unfold LoopHeader.itemsOf
  refine (h.supplies hstore).bind fun _ _ => hcollection.bindOne fun v hv =>
    (h.supplies (h.startOf (fun e he => (hoffset e (Option.mem_toList.mpr he)).run h.pure)
      hregisters)).bind fun start _ =>
    (h.supplies (h.bound fun e he => (hlimit e (Option.mem_toList.mpr he)).run h.pure)).bind
      fun limit _ => (h.supplies (hvisit _)).bind fun _ _ => .pure fun x hx => ?_
  refine hslice v start (limit.map (start + ·)) hv x ?_
  dsimp only [id] at hx
  split at hx
  · exact List.mem_reverse.mp hx
  · exact hx

theorem suppliesCells {header : TableHeader}
    (hexprs : ∀ e ∈ header.exprs, Supplies P V only e.evaluate) :
    Supplies P V cellsOf header.opened := by
  obtain ⟨hcollection, hattributes⟩ := List.forall_mem_cons.mp hexprs
  have hbound (name : String) : P (Option Int) (Render.bound (header.attributes.get? name)) := by
    refine h.bound fun e he => (hattributes e ?_).run h.pure
    obtain ⟨entry, hfind, rfl⟩ := Option.map_eq_some_iff.mp he
    exact List.mem_map_of_mem (List.mem_of_find?_eq_some hfind)
  unfold TableHeader.opened
  refine hcollection.bindOne fun v hv => ?_
  split
  · exact .pure fun _ hx => nomatch hx
  · exact .pure fun _ hx => nomatch hx
  · exact (h.supplies (hbound _)).bind fun _ _ => (h.supplies (hbound _)).bind fun _ _ =>
      (h.supplies (hbound _)).bind fun _ _ => (h.supplies (h.addLoop _)).bind fun _ _ =>
      .pure fun x hx => hslice v _ _ hv x hx

end

/-- **What a node does by itself has a property** that evaluating its expressions has, if they supply values
that satisfy `V`, and that assigning such values has. -/
theorem own {node : Node} (hexprs : ∀ e ∈ node.exprs, Supplies P V only e.evaluate)
    (hpipeline : ∀ p : Pipeline, (∀ e ∈ p.exprs, Supplies P V only e.evaluate) →
      Supplies P V only p.evaluate)
    (hglobal : ∀ v, P Value (Render.filterGlobally v))
    (hslice : ∀ v start stop, V v → ∀ x ∈ v.slice start stop, V x) (htext : ∀ text, V (.str text))
    (hassign : ∀ name, node.target? = some name → ∀ v, V v → P Unit (Render.assign name v))
    (hregisters : node.recalls → P Registers Render.registers)
    (hitems : ∀ header, node.header? = some header → Supplies P V id header.itemsOf) :
    node.Own P V := by
  have hevaluate : ∀ e ∈ node.exprs, P Value e.evaluate := fun e he => (hexprs e he).run h.pure
  cases node with
  | text | interrupt | raw => trivial
  | output o => exact h.output ((hpipeline _ hexprs).run h.pure) hglobal
  | assign tag target source =>
    exact (hpipeline _ hexprs).goOn fun v hv =>
      h.bind (hassign target rfl v (hv v List.mem_cons_self)) fun _ => h.countAssigned _
  | cycle tag group values =>
    obtain ⟨hgroup, hvalues⟩ := List.forall_mem_cons.mp hevaluate
    exact h.cycle (hregisters rfl) hgroup hvalues
  | leaf tag kind => exact h.leaf kind _
  | choose tag negated branches =>
    refine fun branch hbranch c hc => h.condition fun e he => hevaluate e ?_
    refine List.mem_flatMap.mpr ⟨branch, hbranch, ?_⟩
    rw [Option.mem_def.mp hc]
    exact he
  | case tag subject preamble clauses =>
    obtain ⟨hsubject, hvalues⟩ := List.forall_mem_cons.mp hevaluate
    refine fun clause hclause values hsome value hvalue => h.comparison ?_
    refine List.forall_mem_cons.mpr ⟨hsubject, List.forall_mem_singleton.mpr (hvalues value ?_)⟩
    refine List.mem_flatMap.mpr ⟨clause, hclause, ?_⟩
    rw [Option.mem_def.mp hsome]
    exact hvalue
  | loop tag header body otherwise => exact hitems header rfl
  | table tag header body => exact h.suppliesCells hslice hexprs
  | block tag kind body =>
    cases kind with
    | capture target =>
      exact fun text => h.bind (hassign target rfl _ (htext text)) fun _ => h.countAssigned _
    | changed => exact fun body hbody => h.renderChanged (hregisters rfl) hbody
    | comment | repeated | wrap => trivial

end StateClosed

namespace RenderClosed

variable {P Inner : (α : Type) → Render α → Prop} (h : RenderClosed P Inner)

include h

theorem itemsOf (header : LoopHeader) (hvisit : ∀ v, P Unit (Render.visit v))
    (hregisters : header.continues → P Registers Render.registers) :
    P (List Value) header.itemsOf :=
  (h.toStateClosed.suppliesItems (fun _ _ _ _ _ _ => trivial)
    (fun e _ => h.suppliesAny (h.evaluate e)) hvisit hregisters).run h.pure

theorem own {node : Node} (hself : Supports P node) : node.Own P fun _ => True :=
  h.toStateClosed.own (fun e _ => h.suppliesAny (h.evaluate e))
    (fun p _ => h.suppliesAny (h.pipeline p)) (h.toEvaluates.filterGlobally h.raise)
    (fun _ _ _ _ _ _ => trivial) (fun _ => trivial)
    (fun name hname v _ => hself.assign name hname v)
    hself.registers fun header hheader => h.suppliesAny (hself.items header hheader)

/-! ## Nodes and bodies -/

theorem carries {node : Node} (hself : Supports P node) : Carries P (fun _ => True) node where
  own := h.own hself
  placed := hself.placed

theorem treeClosed : TreeClosed P Inner fun _ => True where
  pure := h.pure
  bind := h.bind
  loops := h.loops
  innermostLoop := h.looks (fun _ => rfl) fun _ => h.pure _
  countScore := h.countScore
  addLoop := h.addLoop
  advanceLoop := h.advanceLoop
  withLoop := h.withLoop
  withScope scope _ := h.withScope scope
  inner := h.inner
  innerBind := h.innerBind
  setLocal name v _ := h.setLocal name v
  loopValue _ := trivial

theorem renderAlternatives (subject : Expr) {body : Render Rendered} (hbody : P Rendered body)
    (matched : Bool) (values : List Expr) :
    P (Rendered × Bool) (Render.renderAlternatives subject body matched values) :=
  h.treeClosed.toCompositionClosed.renderAlternatives subject hbody matched values fun _ _ => h.comparison _

/-- **The render of a node has every property that its parts support.** -/
theorem node (node : Node) (hparts : ∀ m ∈ node.parts, Supports P m) : P Rendered node.render :=
  h.treeClosed.node node fun m hm => h.carries (hparts m hm)

theorem nodes (nodes : List Node) (hparts : ∀ m ∈ Node.partsOfBody nodes, Supports P m) :
    P Rendered (Node.renderNodes nodes) :=
  h.treeClosed.nodes nodes fun m hm => h.carries (hparts m hm)

/-- **The render of a body has every property that the parts of its nodes support.** -/
theorem body (body : Body) (hparts : ∀ m ∈ Node.partsOfBody body, Supports P m) :
    P Rendered body.render :=
  h.treeClosed.body body fun m hm => h.carries (hparts m hm)

/-- A property of everything that is done to the registers needs nothing of a node but the assignment of
its variable and the guard. -/
theorem supports (hregisters : RegisterClosed P) {node : Node}
    (hassign : ∀ name, node.target? = some name → ∀ v, P Unit (Render.assign name v))
    (hplaced : P Rendered node.render → P Rendered (Render.placed node node.render)) :
    Supports P node where
  assign := hassign
  registers _ := hregisters.registers
  items header _ := h.itemsOf header hregisters.visit fun _ => hregisters.registers
  placed := hplaced

end RenderClosed

end Render

end Stencil
