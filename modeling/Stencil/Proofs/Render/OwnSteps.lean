import Stencil.Proofs.Render.Composition
import Stencil.Proofs.Render.Evaluation

/-!
# The steps of nodes besides their bodies

What a node does by itself is made of few steps: evaluations, an assignment, a note in the registers, and
the metadata of a new loop. A property of these steps (`OwnClosed`) holds of all that nodes do by themselves
(`OwnClosed.own`). Whatever a cycle does is one step here, so that a property may depend on how its reading
of the registers and its writing to them belong together.
-/

namespace Stencil

namespace Render

/-- A property of evaluations, and of the steps by which nodes change the state besides rendering their
bodies. -/
structure OwnClosed (P : (α : Type) → Render α → Prop) : Prop extends Evaluates P where
  assign (name : String) (v : Value) : P Unit (Render.assign name v)
  countAssigned (n : Nat) : P Unit (modifyCounts fun c => { c with assigned := c.assigned + n })
  registers : P Registers Render.registers
  openStore : P Unit (modifyRegisters fun r => { r with offsets := some (r.offsets.getD []) })
  visit (v : Visit) : P Unit (Render.visit v)
  noteShown (text : String) : P Unit (modifyRegisters fun r => { r with shown := some text })
  addLoop (info : LoopInfo) : P Nat (Render.addLoop info)
  cycle (group : Expr) (values : List Expr) : P String (Render.cycle group values)

namespace OwnClosed

variable {P : (α : Type) → Render α → Prop} (h : OwnClosed P)

include h

theorem itemsOf (header : LoopHeader) : P (List Value) header.itemsOf := by
  have hstart : P Int header.startOf := by
    unfold LoopHeader.startOf
    split
    · exact h.bind h.registers fun _ => h.pure _
    · exact h.bind (h.toEvaluates.bound _) fun _ => h.pure _
  unfold LoopHeader.itemsOf
  exact h.bind h.openStore fun _ => h.bind (h.evaluate _) fun _ => h.bind hstart fun _ =>
    h.bind (h.toEvaluates.bound _) fun _ => h.bind (h.visit _) fun _ => h.pure _

theorem opened (header : TableHeader) : P (Option (Nat × List Value)) header.opened := by
  unfold TableHeader.opened
  refine h.bind (h.evaluate _) fun v => ?_
  split
  · exact h.pure _
  · exact h.pure _
  · exact h.bind (h.toEvaluates.bound _) fun _ => h.bind (h.toEvaluates.bound _) fun _ =>
      h.bind (h.toEvaluates.bound _) fun _ => h.bind (h.addLoop _) fun _ => h.pure _

theorem renderChanged {body : Render Rendered} (hbody : P Rendered (withScope [] body)) :
    P Rendered (Render.renderChanged body) := by
  unfold Render.renderChanged
  refine h.bind hbody fun _ => h.bind h.registers fun _ => ?_
  split
  · exact h.pure _
  · exact h.bind (h.noteShown _) fun _ => h.pure _

/-- **What a node does by itself has the property.** -/
theorem own (node : Node) : node.Own P fun _ => True := by
  cases node with
  | text | interrupt | raw => trivial
  | output o => exact h.toEvaluates.output o
  | assign tag target source =>
    exact h.bind (h.toEvaluates.pipeline _) fun _ => h.bind (h.assign _ _) fun _ => h.countAssigned _
  | cycle tag group values => exact h.cycle group values
  | leaf tag kind => exact h.toStepClosed.leaf kind _
  | choose tag negated branches => exact fun _ _ c _ => h.toEvaluates.condition c
  | case tag subject preamble clauses => exact fun _ _ _ _ _ _ => h.toEvaluates.comparison _
  | loop tag header body otherwise => exact h.suppliesAny (h.itemsOf header)
  | table tag header body => exact h.suppliesAny (h.opened header)
  | block tag kind body =>
    cases kind with
    | capture target =>
      exact fun _ => h.bind (h.assign _ _) fun _ => h.countAssigned _
    | changed => exact fun _ hbody => h.renderChanged hbody
    | comment | repeated | wrap => trivial

end OwnClosed

end Render

end Stencil
