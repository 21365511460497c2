import Stencil.Proofs.Render.Kept

/-!
# Scopes and running loops are left as they were found

Two stacks change while a template is rendered: the scopes, and the running loops, which stand in the
registers and so outlive the render. Every tag restores both, whichever way its render ends.

* `Restored names s t` says that the state `t` has the scopes and the running loops of `s`, up to
  assignments of the variables `names` in the outermost scope.
* `stacks_restored`: rendering a node or a body restores the stacks up to the variables that its
  assignments and captures name, from every state and however it ends. No loop is left running
  between renders that share their registers.
-/

namespace Stencil

namespace Node

/-- The variables that the assignments and captures of a node write. -/
def targets (node : Node) : List String := node.parts.filterMap target?

/-- The variables that the assignments and captures of a body write. -/
def targetsOfBody (body : Body) : List String := (partsOfBody body).filterMap target?

end Node

namespace Render

variable {α β : Type}

/-! ## Assignments to the outermost scope -/

/-- The scopes after assignments for the rest of the render. -/
def assignAll (writes : List (String × Value)) (scopes : List Scope) : List Scope :=
  writes.foldl (fun scopes w => putOutermost w.1 w.2 scopes) scopes

theorem assignAll_append (ws vs : List (String × Value)) (scopes : List Scope) :
    assignAll (ws ++ vs) scopes = assignAll vs (assignAll ws scopes) :=
  List.foldl_append

/-- Assigning below a scope assigns in the scopes under it, if there are any. -/
theorem putOutermost_cons (name : String) (v : Value) (top : Scope) (rest : List Scope) :
    ∃ top', putOutermost name v (top :: rest) = top' :: putOutermost name v rest := by
  cases rest with
  | nil => exact ⟨top.put name v, rfl⟩
  | cons next rest => exact ⟨top, rfl⟩

theorem assignAll_cons (writes : List (String × Value)) (top : Scope) (rest : List Scope) :
    ∃ top', assignAll writes (top :: rest) = top' :: assignAll writes rest := by
  induction writes generalizing top rest with
  | nil => exact ⟨top, rfl⟩
  | cons w writes ih =>
    obtain ⟨top', htop⟩ := putOutermost_cons w.1 w.2 top rest
    obtain ⟨top'', hrest⟩ := ih top' (putOutermost w.1 w.2 rest)
    refine ⟨top'', ?_⟩
    change assignAll writes (putOutermost w.1 w.2 (top :: rest)) = _
    rw [htop, hrest]
    rfl

@[simp] theorem length_putOutermost (name : String) (v : Value) (scopes : List Scope) :
    (putOutermost name v scopes).length = scopes.length := by
  induction scopes with
  | nil => rfl
  | cons top rest ih =>
    obtain ⟨top', htop⟩ := putOutermost_cons name v top rest
    rw [htop, List.length_cons, List.length_cons, ih]

/-- Assigning touches no scope but the outermost one. -/
theorem dropLast_putOutermost (name : String) (v : Value) (scopes : List Scope) :
    (putOutermost name v scopes).dropLast = scopes.dropLast := by
  fun_induction putOutermost name v scopes with
  | case1 => rfl
  | case2 scope => rfl
  | case3 scope rest hrest ih =>
    have hne : rest ≠ [] := by simpa using hrest
    have hne' : putOutermost name v rest ≠ [] := by
      intro hnil
      rw [← List.length_eq_zero_iff, length_putOutermost, List.length_eq_zero_iff] at hnil
      exact hne hnil
    rw [List.dropLast_cons_of_ne_nil hne, List.dropLast_cons_of_ne_nil hne', ih]

/-- What the outermost scope binds a name to. -/
def outermost? (scopes : List Scope) (name : String) : Option Value :=
  scopes.getLast?.bind (·.get? name)

/-- Assigning a variable leaves all others of the outermost scope alone. -/
theorem outermost?_putOutermost_of_ne {name other : String} (hne : other ≠ name) (v : Value)
    (scopes : List Scope) :
    outermost? (putOutermost name v scopes) other = outermost? scopes other := by
  fun_induction putOutermost name v scopes with
  | case1 => rfl
  | case2 scope => exact Named.get?_put_of_ne scope hne v
  | case3 scope rest hrest ih =>
    have hne : rest ≠ [] := by simpa using hrest
    have hlength : (putOutermost name v rest).length = rest.length := length_putOutermost ..
    obtain ⟨next, more, rfl⟩ := List.exists_cons_of_ne_nil hne
    obtain ⟨next', hnext⟩ := putOutermost_cons name v next more
    rw [hnext] at ih ⊢
    simpa [outermost?, List.getLast?_cons_cons] using ih

/-- The state `t` has the scopes of `s`, up to assignments of the variables `names`, and the same
running loops. -/
structure Restored (names : List String) (s t : RenderState) : Prop where
  /-- There are as many scopes as before. -/
  depth : t.scopes.length = s.scopes.length
  /-- Every scope but the outermost one is as before. -/
  inner : t.scopes.dropLast = s.scopes.dropLast
  /-- The outermost scope differs at most at the given names. -/
  outermost : ∀ name ∉ names, outermost? t.scopes name = outermost? s.scopes name
  /-- It comes from the old one by assignments of these names. -/
  assigned : ∃ writes : List (String × Value), (∀ w ∈ writes, w.1 ∈ names) ∧
    t.scopes = assignAll writes s.scopes
  /-- The same loops are running. -/
  loops : t.registers.loopStack = s.registers.loopStack

/-- The stacks are restored when the new scopes come from the old ones by assignments. -/
theorem Restored.of_assignAll {names : List String} {s t : RenderState}
    (writes : List (String × Value)) (hnames : ∀ w ∈ writes, w.1 ∈ names)
    (hscopes : t.scopes = assignAll writes s.scopes)
    (hloops : t.registers.loopStack = s.registers.loopStack) : Restored names s t := by
  have hall : ∀ scopes : List Scope,
      (assignAll writes scopes).length = scopes.length ∧
      (assignAll writes scopes).dropLast = scopes.dropLast ∧
      ∀ name ∉ names, outermost? (assignAll writes scopes) name = outermost? scopes name := by
    clear hscopes
    induction writes with
    | nil => exact fun _ => ⟨rfl, rfl, fun _ _ => rfl⟩
    | cons w writes ih =>
      intro scopes
      have hw : w.1 ∈ names := hnames w List.mem_cons_self
      obtain ⟨hlength, hinner, hother⟩ := ih (fun u hu => hnames u (List.mem_cons_of_mem w hu))
        (putOutermost w.1 w.2 scopes)
      refine ⟨hlength.trans (length_putOutermost ..), hinner.trans (dropLast_putOutermost ..),
        fun name hname => (hother name hname).trans ?_⟩
      have hne : name ≠ w.1 := fun heq => hname (by rwa [heq])
      exact outermost?_putOutermost_of_ne hne w.2 scopes
  obtain ⟨hlength, hinner, hother⟩ := hall s.scopes
  rw [← hscopes] at hlength hinner hother
  exact ⟨hlength, hinner, hother, ⟨writes, hnames, hscopes⟩, hloops⟩

theorem Restored.refl (names : List String) (s : RenderState) : Restored names s s :=
  .of_assignAll [] (fun _ hw => nomatch hw) rfl rfl

theorem Restored.trans {names : List String} {s t u : RenderState} (hst : Restored names s t)
    (htu : Restored names t u) : Restored names s u := by
  obtain ⟨ws, hws, hst'⟩ := hst.assigned
  obtain ⟨vs, hvs, htu'⟩ := htu.assigned
  refine .of_assignAll (ws ++ vs) ?_ ?_ (htu.loops.trans hst.loops)
  · intro w hw
    exact (List.mem_append.mp hw).elim (hws w) (hvs w)
  · rw [assignAll_append, ← hst', ← htu']

/-- Changes to anything but scopes and running loops restore the stacks. -/
theorem Restored.of_eq {names : List String} {s t : RenderState} (hscopes : t.scopes = s.scopes)
    (hloops : t.registers.loopStack = s.registers.loopStack) : Restored names s t :=
  .of_assignAll [] (fun _ hw => nomatch hw) hscopes hloops

/-- Inside a scope that a tag has entered, the innermost scope may change as well. -/
def RestoredBelow (names : List String) (s t : RenderState) : Prop :=
  ∀ top rest, s.scopes = top :: rest → ∃ top', t.scopes = top' :: t.scopes.tail ∧
    Restored names { s with scopes := rest } { t with scopes := t.scopes.tail }

theorem Restored.below {names : List String} {s t : RenderState} (hst : Restored names s t) :
    RestoredBelow names s t := by
  intro top rest hs
  obtain ⟨writes, hnames, hscopes⟩ := hst.assigned
  obtain ⟨top', htop⟩ := assignAll_cons writes top rest
  rw [hs, htop] at hscopes
  refine ⟨top', by rw [hscopes]; rfl, .of_assignAll writes hnames ?_ hst.loops⟩
  rw [hscopes]
  rfl

/-! ## Tags restore the stacks -/

theorem evaluationRelation_restored (names : List String) :
    EvaluationRelation fun _ => Restored names where
  refl _ := Restored.refl names
  trans := Restored.trans
  bound _ _ _ := .of_eq rfl rfl
  notices _ _ _ := .of_eq rfl rfl

theorem evaluates_restored (names : List String) : Evaluates (Keeps fun _ => Restored names) :=
  ((evaluationRelation_restored names).asking fun _ _ _ => .of_eq rfl rfl).evaluates

theorem renderClosed_restored (names : List String) :
    RenderClosed (Keeps fun _ => Restored names) (Keeps fun _ => RestoredBelow names) where
  toEvaluates := evaluates_restored names
  modifyRegisters f hstack _ σ s := .of_eq rfl (hstack s.registers)
  countScore n σ s := .of_eq rfl rfl
  countAssigned n σ s := .of_eq rfl rfl
  addLoop info σ s := .of_eq rfl rfl
  advanceLoop id σ s := .of_eq rfl rfl
  withLoop {α} {x} id hx := by
    intro σ s
    rw [runFrom_withLoop]
    -- the loop that was put on top is the one that is taken off, since the step restores the rest
    have hstep := hx σ (s.enterLoop id)
    obtain ⟨writes, hnames, hscopes⟩ := hstep.assigned
    refine .of_assignAll writes hnames hscopes ?_
    exact congrArg List.tail hstep.loops
  withScope {α} {x} scope hx := by
    intro σ s
    rw [runFrom_withScope]
    split
    · exact Restored.refl names s
    · obtain ⟨_, _, hstep⟩ := hx σ { s with scopes := scope :: s.scopes } scope s.scopes rfl
      exact hstep
  inner hx σ s := (hx σ s).below
  innerBind {α β} {x} {f} hx hf := by
    intro σ s top rest hs
    obtain ⟨top', htop, hstep⟩ := hx σ s top rest hs
    rw [runFrom_bind]
    generalize x.runFrom σ s = r at htop hstep
    match r with
    | (.error e, t) => exact ⟨top', htop, hstep⟩
    | (.ok a, t) =>
      obtain ⟨top'', htop', hstep'⟩ := hf a σ t top' t.scopes.tail htop
      exact ⟨top'', htop', hstep.trans hstep'⟩
  setLocal name v := by
    intro σ s top rest hs
    simp only [Render.setLocal, runFrom_modifyScopes, hs, List.isEmpty_cons, Bool.false_eq_true,
      if_false, putInnermost, List.tail_cons]
    exact ⟨_, rfl, Restored.refl names _⟩

/-- A node supports that the stacks are restored when its own variable is among the names. -/
theorem supports_restored {names : List String} (node : Node)
    (htarget : ∀ name, node.target? = some name → name ∈ names) :
    Supports (Keeps fun _ => Restored names) node := by
  have hR := evaluationRelation_restored names
  refine (renderClosed_restored names).supports (hR.registerClosed fun _ _ _ => .of_eq rfl rfl)
    (fun name hname v σ s => ?_) (hR.keeps_placed (fun length σ s => ?_) (fun e line σ s => ?_) node)
  · rw [Render.assign, runFrom_modifyScopes]
    split
    · exact Restored.refl names s
    · refine .of_assignAll [(name, v)] (fun w hw => ?_) rfl rfl
      rw [List.mem_singleton.mp hw]
      exact htarget name hname
  · rw [runFrom_countLength]
    exact .of_eq rfl rfl
  · rw [runFrom_handle]
    exact .of_eq rfl rfl

theorem restored_node (node : Node) (σ : Settings) (s : RenderState) :
    Restored node.targets s (node.render.runFrom σ s).2 := by
  refine (renderClosed_restored node.targets).node node (fun m hm => ?_) σ s
  exact supports_restored m fun name hname => List.mem_filterMap.mpr ⟨m, hm, hname⟩

theorem restored_body (body : Body) (σ : Settings) (s : RenderState) :
    Restored (Node.targetsOfBody body) s (body.render.runFrom σ s).2 := by
  refine (renderClosed_restored (Node.targetsOfBody body)).body body (fun m hm => ?_) σ s
  exact supports_restored m fun name hname => List.mem_filterMap.mpr ⟨m, hm, hname⟩

end Render

/-! ## Renders that share their registers -/

/-- One of several renders that share a store of registers. -/
structure SharedRender where
  env : Environment
  template : Template
  call : Outcome (RenderOptions × Option Scope)

/-- The registers after renders that share them, one after another. -/
def Registers.afterRenders (r : Registers) (renders : List SharedRender) : Registers :=
  renders.foldl (fun r one => (one.template.render one.env one.call r).registers) r

open Render

/-- A whole render leaves the loops running that were running before, with all ways of ending. -/
theorem loopStack_renderWhole (body : Body) (σ : Settings) (s : RenderState) :
    (body.renderWhole.runFrom σ s).2.registers.loopStack = s.registers.loopStack := by
  refine ((evaluationRelation_restored (Node.targetsOfBody body)).keeps_renderWhole
    (fun e line σ s => ?_) body (restored_body body) σ s).loops
  rw [runFrom_handle]
  exact .of_eq rfl rfl

theorem loopStack_render (env : Environment) (call : Outcome (RenderOptions × Option Scope))
    (r : Registers) (t : Template) : (t.render env call r).registers.loopStack = r.loopStack := by
  unfold Template.render
  cases call with
  | error e => rfl
  | ok given =>
    obtain ⟨options, data⟩ := given
    dsimp only [Except.bind]
    cases hstart : env.start options data r t with
    | error e => rfl
    | ok finished =>
      obtain ⟨limits, hlimits, rfl⟩ := start_eq_ok hstart
      exact loopStack_renderWhole ..

theorem loopStack_afterRenders (r : Registers) (renders : List SharedRender) :
    (r.afterRenders renders).loopStack = r.loopStack := by
  induction renders generalizing r with
  | nil => rfl
  | cons one renders ih => exact (ih _).trans (loopStack_render ..)

/-- **Scopes and running loops are left as they were found.** However the render of a node or a body
ends, there are as many scopes as before, the inner ones are unchanged, the outermost one differs only
by assignments of variables that the node or body names, and the same loops are running. Between
renders that share their registers no loop is running. -/
theorem stacks_restored :
    (∀ (node : Node) (σ : Settings) (s : RenderState),
      Restored node.targets s (node.render.runFrom σ s).2) ∧
    (∀ (body : Body) (σ : Settings) (s : RenderState),
      Restored (Node.targetsOfBody body) s (body.render.runFrom σ s).2) ∧
    ∀ renders : List SharedRender, (Registers.afterRenders {} renders).loopStack = [] :=
  ⟨restored_node, restored_body, loopStack_afterRenders {}⟩

end Stencil
