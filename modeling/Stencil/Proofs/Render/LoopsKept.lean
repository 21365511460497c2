import Stencil.Proofs.Render.Entered
import Stencil.Proofs.Render.OwnSteps

/-!
# Loops leave the metadata of other loops alone

The metadata of all loops of a render stands in one store. A loop adds its own at the end of it and moves that
on, so that the metadata that was there before is the same afterwards.

* `LoopsKept n`: the metadata of the first `n` loops is the same, if there were so many.
* `loopsKept_node_of_bodies`, `loopsKept_body`: the render of a node or body keeps the metadata of all loops
  that were there before, however it ends.
-/

namespace Stencil

namespace Render

variable {α : Type} {σ : Settings} {s t : RenderState} {n : Nat}

/-- The metadata of the first `n` loops is the same, if there were so many. -/
def LoopsKept (n : Nat) (_ : Settings) (s t : RenderState) : Prop :=
  n ≤ s.loops.size → n ≤ t.loops.size ∧ ∀ id < n, t.loops[id]? = s.loops[id]?

theorem LoopsKept.of_same (h : t.loops = s.loops) : LoopsKept n σ s t := by
  intro hn
  rw [h]
  exact ⟨hn, fun _ _ => rfl⟩

theorem LoopsKept.trans {u : RenderState} (hst : LoopsKept n σ s t) (htu : LoopsKept n σ t u) :
    LoopsKept n σ s u := by
  intro hn
  obtain ⟨hsize, hst⟩ := hst hn
  obtain ⟨hsize', htu⟩ := htu hsize
  exact ⟨hsize', fun id hid => (htu id hid).trans (hst id hid)⟩

/-- The metadata of a loop that is added comes behind that of all others. -/
theorem loopsKept_withInfo (s : RenderState) (info : LoopInfo) :
    LoopsKept n σ s { s with loops := s.loops.push info } := by
  intro hn
  refine ⟨?_, fun id hid => ?_⟩
  · rw [Array.size_push]
    exact Nat.le_succ_of_le hn
  · have hlt : id < s.loops.size := Nat.lt_of_lt_of_le hid hn
    rw [Array.getElem?_push_lt hlt, Array.getElem?_eq_getElem hlt]

theorem loopsKept_advanced {id : Nat} (hid : n ≤ id) :
    LoopsKept n σ s { s with loops := s.loops.modify id LoopInfo.advance } := by
  intro hn
  refine ⟨by rwa [Array.size_modify], fun other hother => ?_⟩
  rw [Array.getElem?_modify, if_neg (by omega)]

/-! ## Steps -/

theorem evaluationRelation_loopsKept (n : Nat) : EvaluationRelation (LoopsKept n) where
  refl _ _ := .of_same rfl
  trans := .trans
  bound _ _ _ := .of_same rfl
  notices _ _ _ := .of_same rfl

/-- A relation of the metadata alone is kept by all steps that leave it as it is. -/
theorem keeps_loopsKept_of_same {x : Render α} (hx : ∀ σ s, (x.runFrom σ s).2.loops = s.loops) :
    Keeps (LoopsKept n) α x :=
  fun σ s => .of_same (hx σ s)

theorem loops_modifyScopes (f : List Scope → List Scope) (σ : Settings) (s : RenderState) :
    ((modifyScopes f).runFrom σ s).2.loops = s.loops := by
  rw [runFrom_modifyScopes]
  split <;> rfl

theorem evaluates_loopsKept (n : Nat) : Evaluates (Keeps (LoopsKept n)) :=
  ((evaluationRelation_loopsKept n).asking fun _ _ _ => .of_same rfl).evaluates

theorem keeps_modifyRegisters (f : Registers → Registers) :
    Keeps (LoopsKept n) Unit (modifyRegisters f) :=
  keeps_loopsKept_of_same fun _ _ => rfl

theorem loopsKept_cycle (group : Expr) (values : List Expr) :
    Keeps (LoopsKept n) String (cycle group values) := by
  have h := evaluates_loopsKept n
  unfold cycle
  split
  · exact h.pure _
  · refine h.bind (keeps_modifyRegisters _) fun _ => h.bind (h.evaluate group) fun _ => ?_
    split
    · exact h.throw (Failure.isRefusal_host _)
    · exact h.bind (keeps_loopsKept_of_same fun _ _ => rfl) fun _ => h.bind (h.evaluate _) fun _ =>
        h.bind (keeps_modifyRegisters _) fun _ => h.outputText _

theorem ownClosed_loopsKept (n : Nat) : OwnClosed (Keeps (LoopsKept n)) where
  toEvaluates := evaluates_loopsKept n
  assign _ _ := keeps_loopsKept_of_same (loops_modifyScopes _)
  countAssigned _ := keeps_loopsKept_of_same fun _ _ => rfl
  registers := keeps_loopsKept_of_same fun _ _ => rfl
  openStore := keeps_modifyRegisters _
  visit _ := keeps_loopsKept_of_same fun _ _ => rfl
  noteShown _ := keeps_modifyRegisters _
  addLoop info _ s := loopsKept_withInfo s info
  cycle := loopsKept_cycle

theorem sequenceClosed_loopsKept (n : Nat) : SequenceClosed (Keeps (LoopsKept n)) where
  pure := (evaluates_loopsKept n).pure
  bind := (evaluates_loopsKept n).bind
  countScore _ := keeps_loopsKept_of_same fun _ _ => rfl

theorem loopsKept_withScope (scope : Scope) {x : Render α} (hx : Keeps (LoopsKept n) α x) :
    Keeps (LoopsKept n) α (withScope scope x) := by
  intro σ s
  rw [runFrom_withScope]
  split
  · exact .of_same rfl
  · exact hx σ { s with scopes := scope :: s.scopes }

theorem loopsKept_withLoop (id : Nat) {x : Render α} (hx : Keeps (LoopsKept n) α x) :
    Keeps (LoopsKept n) α (withLoop id x) := by
  intro σ s
  rw [runFrom_withLoop]
  exact hx σ (s.enterLoop id)

/-! ## Loops and tables -/

/-- What is done with a new loop may change the metadata of this loop. -/
theorem loopsKept_addLoop_bind (info : LoopInfo) {f : Nat → Render α}
    (hf : ∀ id, n ≤ id → Keeps (LoopsKept n) α (f id)) : Keeps (LoopsKept n) α (addLoop info >>= f) := by
  -- its number is at least the number of loops that are kept
  intro σ s hn
  exact (loopsKept_withInfo s info).trans (hf s.loops.size hn σ _) hn

variable {body : Render Rendered} (hbody : Keeps (LoopsKept n) Rendered body)

include hbody

theorem loopsKept_renderItems {id : Nat} (hid : n ≤ id) (itemName : String) (items : List Value) :
    Keeps (LoopsKept n) String (renderItems id itemName body items) := by
  have h := evaluates_loopsKept n
  induction items with
  | nil => exact h.pure _
  | cons item rest ih =>
    refine h.bind (loopsKept_withScope _ hbody) fun _ =>
      h.bind (fun σ s => loopsKept_advanced hid) fun _ => ?_
    split
    · exact h.pure _
    · exact h.bind ih fun _ => h.pure _

theorem loopsKept_loop (header : LoopHeader) {otherwise : Option (Render Rendered)}
    (hotherwise : ∀ step ∈ otherwise, Keeps (LoopsKept n) Rendered step) :
    Keeps (LoopsKept n) Rendered (header.render body otherwise) := by
  have h := ownClosed_loopsKept n
  unfold LoopHeader.render
  refine h.bind (h.itemsOf header) fun items => ?_
  -- without items, what stands behind the else is rendered
  split
  · split
    · exact loopsKept_withScope [] (hotherwise _ rfl)
    · exact h.pure _
  · exact h.bind (keeps_loopsKept_of_same fun _ _ => rfl) fun _ => loopsKept_addLoop_bind _ fun id hid =>
      h.bind (loopsKept_withLoop id (loopsKept_renderItems hbody hid _ items)) fun _ => h.pure _

theorem loopsKept_renderCells {id : Nat} (hid : n ≤ id) (itemName : String) (items : List Value) :
    Keeps (LoopsKept n) String (renderCells id itemName body items) := by
  have h := evaluates_loopsKept n
  induction items with
  | nil => exact h.pure _
  | cons item rest ih =>
    refine h.bind (keeps_loopsKept_of_same (loops_modifyScopes _)) fun _ => h.bind h.loops fun _ => ?_
    split
    · exact h.pure _
    · refine h.bind hbody fun _ => h.bind (fun σ s => loopsKept_advanced hid) fun _ => ?_
      split
      · exact h.pure _
      · exact h.bind ih fun _ => h.pure _

theorem loopsKept_table (header : TableHeader) : Keeps (LoopsKept n) Rendered (header.render body) := by
  have h := evaluates_loopsKept n
  unfold TableHeader.render
  refine h.bind (h.evaluate _) fun collection => ?_
  -- without a collection there is no table
  split
  · exact h.pure _
  · exact h.pure _
  · unfold TableHeader.renderRows
    refine h.bind (h.bind (h.bound _) fun _ => h.bind (h.bound _) fun _ => h.bind (h.bound _) fun _ =>
      loopsKept_addLoop_bind _ fun id hid => ?_) fun _ => h.pure _
    exact h.bind (loopsKept_withScope _ (loopsKept_renderCells hbody hid _ _)) fun _ => h.pure _

omit hbody

/-! ## Nodes and bodies -/

theorem loopsKept_block {tag : Tag} {kind : BlockKind} {nodes : Body}
    (hown : (Node.block tag kind nodes).Own (Keeps (LoopsKept n)) fun _ => True)
    (hnodes : Keeps (LoopsKept n) Rendered nodes.render) :
    Keeps (LoopsKept n) Rendered (kind.render nodes.render) := by
  have h := sequenceClosed_loopsKept n
  cases kind with
  | capture target => exact h.bind hnodes fun _ => h.bind (hown _) fun _ => h.pure _
  | changed => exact hown _ (loopsKept_withScope [] hnodes)
  | comment => exact h.pure _
  | repeated times => exact h.bind (h.renderRepeatedly hnodes times) fun _ => h.pure _
  | wrap => exact hnodes

/-- A node keeps the metadata of loops that its bodies keep. One case for each kind of node. -/
theorem loopsKept_node_of_bodies {node : Node}
    (hbodies : ∀ inner ∈ node.bodies, Keeps (LoopsKept n) Rendered (Body.render inner)) :
    Keeps (LoopsKept n) Rendered node.render := by
  have h := sequenceClosed_loopsKept n
  have hown := (ownClosed_loopsKept n).own node
  cases node with
  | choose tag negated branches =>
    unfold Node.render
    exact loopsKept_withScope [] (h.branches negated hown fun branch hbranch =>
      hbodies _ (List.mem_map_of_mem hbranch))
  | case tag subject preamble clauses =>
    unfold Node.render
    exact loopsKept_withScope [] (h.clauses subject false hown fun clause hclause =>
      hbodies _ (List.mem_map_of_mem hclause))
  | loop tag header body otherwise =>
    rw [render_loop]
    refine loopsKept_loop (hbodies body List.mem_cons_self) header fun step hstep => ?_
    obtain ⟨other, hother, rfl⟩ := Option.map_eq_some_iff.mp hstep
    exact hbodies other (List.mem_cons_of_mem _ (Option.mem_toList.mpr hother))
  | table tag header body =>
    rw [render_table]
    exact loopsKept_table (hbodies body List.mem_cons_self) header
  | block tag kind body =>
    rw [render_block]
    exact loopsKept_block hown (hbodies body List.mem_cons_self)
  | text | output | assign | interrupt | cycle | raw | leaf => exact h.leaf hown rfl

theorem loopsKept_placed {node : Node} (hnode : Keeps (LoopsKept n) Rendered node.render) :
    Keeps (LoopsKept n) Rendered (placed node node.render) := by
  refine (evaluationRelation_loopsKept n).keeps_placed (fun length => ?_) (fun e line => ?_) node hnode
  · exact keeps_loopsKept_of_same fun σ s => by rw [runFrom_countLength]; rfl
  · exact keeps_loopsKept_of_same fun σ s => by rw [runFrom_handle]; rfl

/-- **The render of a body leaves the metadata of all loops alone that were there before.** Induction on the
tree. -/
theorem loopsKept_body (n : Nat) (body : Body) : Keeps (LoopsKept n) Rendered body.render := by
  induction body using Body.induction with
  | step body ih =>
    exact (sequenceClosed_loopsKept n).body fun node hnode =>
      loopsKept_placed (loopsKept_node_of_bodies (ih node hnode))

theorem loopsKept_nodes (n : Nat) (nodes : List Node) :
    Keeps (LoopsKept n) Rendered (Node.renderNodes nodes) :=
  (sequenceClosed_loopsKept n).nodes fun _ _ =>
    loopsKept_placed (loopsKept_node_of_bodies fun inner _ => loopsKept_body n inner)

end Render

end Stencil
