import Stencil.Proofs.Render.Tree

/-!
# Relations that a render keeps

Many facts about a render relate the state before a step to the state after it, however the step
ends (`Keeps`). The guard around a node counts, checks and records. A relation that these keep is kept
by a guarded node when the node itself keeps it (`EvaluationRelation.keeps_placed`).
-/

namespace Stencil

namespace Render

variable {R : Settings → RenderState → RenderState → Prop}

namespace EvaluationRelation

variable (hR : EvaluationRelation R)

include hR

/-- The guard around a node keeps a relation that counting, checking and recording keep. -/
theorem keeps_placed (hcount : ∀ length, Keeps R Unit (countLength length))
    (hhandle : ∀ e line, Keeps R String (handle e line)) (node : Node)
    (hnode : Keeps R Rendered node.render) : Keeps R Rendered (placed node node.render) := by
  rw [placed_eq_guarded]
  refine hR.keeps_tryCatch (hR.keeps_bind hnode fun r => hR.keeps_bind (hcount _) fun _ =>
    hR.keeps_of_eq fun _ _ => rfl) fun e => ?_
  split
  · exact hR.keeps_of_eq fun _ _ => rfl
  · exact hR.keeps_bind (hhandle e _) fun _ => hR.keeps_of_eq fun _ _ => rfl

/-- A whole render keeps a relation that its body and recording keep. -/
theorem keeps_renderWhole (hhandle : ∀ e line, Keeps R String (handle e line)) (body : Body)
    (hbody : Keeps R Rendered body.render) : Keeps R String body.renderWhole := by
  unfold Body.renderWhole
  refine hR.keeps_tryCatch (hR.keeps_bind hbody fun r => ?_) fun e => ?_
  · -- a signal that no loop took is noticed
    split
    · exact fun σ s => hR.notices σ s _
    · exact hR.keeps_of_eq fun _ _ => rfl
  · split
    · exact hhandle e none
    · exact hR.keeps_of_eq fun _ _ => rfl

/-- The registers may always be looked at, so that only the loops that are noted matter. -/
theorem registerClosed (hvisited : ∀ σ s v, R σ s (s.noteVisit v)) : RegisterClosed (Keeps R) where
  registers := hR.keeps_of_eq fun _ _ => rfl
  visit v σ s := hvisited σ s v

end EvaluationRelation

/-! ## Relations of the accounts

What was counted, checked and recorded is changed by few steps. A relation of these accounts is kept
by all others. -/

/-- A relation of states that only looks at what was counted, checked and recorded, and that visiting
nodes and assigning values keep. -/
structure AccountRelation (R : Settings → RenderState → RenderState → Prop) : Prop where
  same {σ : Settings} {s t : RenderState} : t.counts = s.counts → t.checks = s.checks →
    t.errors = s.errors → R σ s t
  trans {σ : Settings} {s t u : RenderState} : R σ s t → R σ t u → R σ s u
  score (σ : Settings) (s : RenderState) (n : Nat) :
    R σ s { s with counts := { s.counts with score := s.counts.score + n } }
  assigned (σ : Settings) (s : RenderState) (n : Nat) :
    R σ s { s with counts := { s.counts with assigned := s.counts.assigned + n } }

namespace AccountRelation

variable (hR : AccountRelation R)

include hR

theorem evaluation : EvaluationRelation R where
  refl _ _ := hR.same rfl rfl rfl
  trans := hR.trans
  bound _ _ _ := hR.same rfl rfl rfl
  notices _ _ _ := hR.same rfl rfl rfl

theorem asking : AskingClosed (Keeps R) := hR.evaluation.asking fun _ _ _ => hR.same rfl rfl rfl

theorem keeps_modifyScopes (f : List Scope → List Scope) :
    Keeps R Unit (modifyScopes f) := by
  intro σ s
  rw [runFrom_modifyScopes]
  split
  · exact hR.same rfl rfl rfl
  · exact hR.same rfl rfl rfl

theorem renderClosed : RenderClosed (Keeps R) (Keeps R) where
  toEvaluates := hR.asking.evaluates
  modifyRegisters _ _ _ _ _ := hR.same rfl rfl rfl
  countScore n σ s := hR.score σ s n
  countAssigned n σ s := hR.assigned σ s n
  addLoop _ _ _ := hR.same rfl rfl rfl
  advanceLoop _ _ _ := hR.same rfl rfl rfl
  withLoop {α} {x} id hx := by
    intro σ s
    rw [runFrom_withLoop]
    -- the registers are no account, neither before the step nor after it
    have hbefore : R σ s (s.enterLoop id) := hR.same rfl rfl rfl
    exact hR.trans (hR.trans hbefore (hx σ _)) (hR.same rfl rfl rfl)
  withScope {α} {x} scope hx := by
    intro σ s
    rw [runFrom_withScope]
    split
    · exact hR.same rfl rfl rfl
    · have hbefore : R σ s { s with scopes := scope :: s.scopes } := hR.same rfl rfl rfl
      exact hR.trans (hR.trans hbefore (hx σ _)) (hR.same rfl rfl rfl)
  inner hx := hx
  innerBind := hR.evaluation.keeps_bind
  setLocal _ _ := hR.keeps_modifyScopes _

theorem registerClosed : RegisterClosed (Keeps R) :=
  hR.evaluation.registerClosed fun _ _ _ => hR.same rfl rfl rfl

/-- A node supports a relation of the accounts that the guard around it keeps. -/
theorem supports {node : Node}
    (hplaced : Keeps R Rendered node.render → Keeps R Rendered (placed node node.render)) :
    Supports (Keeps R) node :=
  hR.renderClosed.supports hR.registerClosed (fun _ _ _ => hR.keeps_modifyScopes _) hplaced

theorem keeps_body (body : Body) (hplaced : ∀ m ∈ Node.partsOfBody body,
    Keeps R Rendered m.render → Keeps R Rendered (placed m m.render)) :
    Keeps R Rendered body.render :=
  hR.renderClosed.body body fun m hm => hR.supports (hplaced m hm)

theorem keeps_node (node : Node) (hplaced : ∀ m ∈ node.parts,
    Keeps R Rendered m.render → Keeps R Rendered (placed m m.render)) :
    Keeps R Rendered node.render :=
  hR.renderClosed.node node fun m hm => hR.supports (hplaced m hm)

end AccountRelation

/-! ## Relations of what was bound, asked and met

Host objects are bound and asked by evaluations, and loops are noted when their items are chosen. A
relation of what these leave behind is kept by all other steps. -/

/-- A relation of states that only looks at what was bound and asked, at the loops that were met and at
the places where loops stopped, and that binding keeps. -/
structure TraceRelation (R : Settings → RenderState → RenderState → Prop) : Prop where
  same {σ : Settings} {s t : RenderState} : t.boundDrops = s.boundDrops →
    t.boundLoops = s.boundLoops → t.asks = s.asks → t.visits = s.visits →
    (∀ name, t.registers.offset name = s.registers.offset name) → R σ s t
  trans {σ : Settings} {s t u : RenderState} : R σ s t → R σ t u → R σ s u
  bound (σ : Settings) (s : RenderState) (v : Value) : R σ s (s.binding v)

namespace TraceRelation

variable (hR : TraceRelation R)

include hR

theorem evaluation : EvaluationRelation R where
  refl _ _ := hR.same rfl rfl rfl rfl fun _ => rfl
  trans := hR.trans
  bound := hR.bound
  notices _ _ _ := hR.same rfl rfl rfl rfl fun _ => rfl

theorem keeps_modifyScopes (f : List Scope → List Scope) : Keeps R Unit (modifyScopes f) := by
  intro σ s
  rw [runFrom_modifyScopes]
  split <;> exact hR.same rfl rfl rfl rfl fun _ => rfl

theorem keeps_handle (e : Failure) (line : Option Int) : Keeps R String (handle e line) := by
  intro σ s
  rw [runFrom_handle]
  exact hR.same rfl rfl rfl rfl fun _ => rfl

theorem renderClosed (hevaluates : Evaluates (Keeps R)) : RenderClosed (Keeps R) (Keeps R) where
  toEvaluates := hevaluates
  modifyRegisters f _ hoffset _ s := hR.same rfl rfl rfl rfl (hoffset s.registers)
  countScore _ _ _ := hR.same rfl rfl rfl rfl fun _ => rfl
  countAssigned _ _ _ := hR.same rfl rfl rfl rfl fun _ => rfl
  addLoop _ _ _ := hR.same rfl rfl rfl rfl fun _ => rfl
  advanceLoop _ _ _ := hR.same rfl rfl rfl rfl fun _ => rfl
  withLoop {α} {x} id hx := by
    intro σ s
    rw [runFrom_withLoop]
    have hbefore : R σ s (s.enterLoop id) := hR.same rfl rfl rfl rfl fun _ => rfl
    exact hR.trans (hR.trans hbefore (hx σ _)) (hR.same rfl rfl rfl rfl fun _ => rfl)
  withScope {α} {x} scope hx := by
    intro σ s
    rw [runFrom_withScope]
    split
    · exact hR.same rfl rfl rfl rfl fun _ => rfl
    · have hbefore : R σ s { s with scopes := scope :: s.scopes } :=
        hR.same rfl rfl rfl rfl fun _ => rfl
      exact hR.trans (hR.trans hbefore (hx σ _)) (hR.same rfl rfl rfl rfl fun _ => rfl)
  inner hx := hx
  innerBind := hR.evaluation.keeps_bind
  setLocal _ _ := hR.keeps_modifyScopes _

/-- A node supports the relation when choosing the items of its loop keeps it. -/
theorem supports {node : Node} (hitems : ∀ header, node.header? = some header →
    Keeps R (List Value) header.itemsOf) : Supports (Keeps R) node where
  assign _ _ _ := hR.keeps_modifyScopes _
  registers _ := hR.evaluation.keeps_of_eq fun _ _ => rfl
  items := hitems
  placed := hR.evaluation.keeps_placed (fun length σ s => by
    rw [runFrom_countLength]
    exact hR.same rfl rfl rfl rfl fun _ => rfl) hR.keeps_handle node

/-- A whole render keeps the relation when evaluations and choosing the items of loops do. -/
theorem keeps_run (hevaluates : Evaluates (Keeps R))
    (hitems : ∀ header, Keeps R (List Value) (LoopHeader.itemsOf header)) (body : Body)
    (σ : Settings) (counts : Counts) (registers : Registers) :
    R σ { registers, counts } (Environment.run σ counts registers body).state :=
  hR.evaluation.keeps_renderWhole hR.keeps_handle body ((hR.renderClosed hevaluates).body body
    fun _ _ => hR.supports fun header _ => hitems header) σ { registers, counts }

end TraceRelation

/-! ## Relations of the scopes

Evaluations look names up in the scopes, and change none. Nor does anything else that a node does before it
assigns a variable or enters a scope. -/

/-- A relation that only looks at the scopes. -/
structure ScopeRelation (R : Settings → RenderState → RenderState → Prop) : Prop where
  same {σ : Settings} {s t : RenderState} : t.scopes = s.scopes → R σ s t
  trans {σ : Settings} {s t u : RenderState} : R σ s t → R σ t u → R σ s u

namespace ScopeRelation

variable {R : Settings → RenderState → RenderState → Prop} (hR : ScopeRelation R)

include hR

theorem evaluation : EvaluationRelation R where
  refl _ _ := hR.same rfl
  trans := hR.trans
  bound _ _ _ := hR.same rfl
  notices _ _ _ := hR.same rfl

theorem asking : AskingClosed (Keeps R) := hR.evaluation.asking fun _ _ _ => hR.same rfl

theorem stateClosed : StateClosed (Keeps R) where
  toStepClosed := hR.asking.toStepClosed
  modifyRegisters _ _ _ _ _ := hR.same rfl
  countScore _ _ _ := hR.same rfl
  countAssigned _ _ _ := hR.same rfl
  addLoop _ _ _ := hR.same rfl
  advanceLoop _ _ _ := hR.same rfl
  withLoop {α} {x} id hx := by
    intro σ s
    rw [runFrom_withLoop]
    have hbefore : R σ s (s.enterLoop id) := hR.same rfl
    exact hR.trans (hR.trans hbefore (hx σ _)) (hR.same rfl)

theorem registerClosed : RegisterClosed (Keeps R) :=
  hR.evaluation.registerClosed fun _ _ _ => hR.same rfl

/-- Choosing the items of a loop changes no scope. -/
theorem keeps_itemsOf (header : LoopHeader) : Keeps R (List Value) header.itemsOf :=
  (hR.stateClosed.suppliesItems (V := fun _ => True) (fun _ _ _ _ _ _ => trivial)
    (fun e _ => hR.asking.suppliesAny (hR.asking.evaluate e)) hR.registerClosed.visit
    fun _ => hR.registerClosed.registers).run hR.asking.pure

/-- Nor does reading the head of a table. -/
theorem keeps_opened (header : TableHeader) : Keeps R (Option (Nat × List Value)) header.opened :=
  (hR.stateClosed.suppliesCells (V := fun _ => True) (fun _ _ _ _ _ _ => trivial)
    fun e _ => hR.asking.suppliesAny (hR.asking.evaluate e)).run hR.asking.pure

end ScopeRelation

theorem scopeRelation_eq : ScopeRelation fun _ s t => t.scopes = s.scopes :=
  ⟨id, fun hst htu => htu.trans hst⟩

end Render

end Stencil
