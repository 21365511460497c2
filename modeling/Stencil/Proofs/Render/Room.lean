import Stencil.Proofs.Render.ScopeDiscipline
import Stencil.Proofs.Tree.Nesting
import Stencil.Proofs.Value.Raising

/-!
# Room for scopes

Each block enters at most one scope around its bodies. A body whose blocks are nested within `n` levels
therefore never meets the limit on scopes from a state that leaves room for `n` more of them.

* `StaysWithin σ n`: from such a state, a step neither fails with the error that scopes are nested too deeply
  nor records it, and leaves as many scopes as there were. The values in the scopes are calm: nothing in them
  raises the error by itself (`Value.IsCalm`).
* `levelClosed_staysWithin`: a tag needs room for one scope more than its bodies.
* `staysWithin_body`: a body that is nested within `n` levels needs room for `n` scopes.
-/

namespace Stencil

/-- Functions and drops in the value do not raise the error that blocks or scopes are nested too deeply. -/
abbrev Value.IsCalm (v : Value) : Prop := v.RaisesOnly Failure.NotNesting

/-- The variables of a scope are calm. -/
def Scope.IsCalm (scope : Scope) : Prop := ∀ entry ∈ scope, entry.2.IsCalm

/-- The variables of a render are calm, and no error that blocks or scopes are nested too deeply has been
recorded. -/
structure RenderState.IsCalm (s : RenderState) : Prop where
  scopes : ∀ scope ∈ s.scopes, Scope.IsCalm scope
  errors : ∀ error ∈ s.errors, error.kind ≠ .nesting

/-- The data of a render are calm, its filters are built-in ones, and its global filter does not raise the
error that blocks or scopes are nested too deeply. -/
structure Settings.IsCalm (σ : Settings) : Prop where
  environments : ∀ scope ∈ σ.environments, Scope.IsCalm scope
  filters : ∀ name f, σ.filters.get? name = some f → ∃ b, f = .builtin b
  globalFilter : ∀ f, σ.globalFilter = some (.custom f) → ∀ v, FailsOnly Failure.NotNesting (f v)

namespace Render

variable {α β : Type} {σ : Settings} {n : Nat} {s : RenderState}

/-! ## Levels -/

/-- A family of properties in which each level is the one of the tags around the level before: of a body that
is nested within `n` levels, the render has the property of level `n`. -/
theorem body_of_levels {P Inner : Nat → (α : Type) → Render α → Prop} {V : Value → Prop}
    (h : ∀ n, LevelClosed (P n) (Inner n) (P (n + 1)) V) {body : Body}
    (hnested : body.NestedWithin n) (hcarries : ∀ n, ∀ m ∈ Node.partsOfBody body, Carries (P n) V m) :
    P n Rendered body.render := by
  induction n generalizing body with
  | zero =>
    refine (h 0).below.body fun node hnode => ?_
    have hself := hcarries 0 node (Node.mem_partsOfBody.mpr ⟨node, hnode, node.self_mem_parts⟩)
    exact hself.placed ((h 0).below.leaf hself.own (hnested node hnode))
  | succ n ih =>
    refine (h n).above.body fun node hnode => ?_
    have hself (k : Nat) : Carries (P k) V node :=
      hcarries k node (Node.mem_partsOfBody.mpr ⟨node, hnode, node.self_mem_parts⟩)
    refine (hself (n + 1)).placed ((h n).node (hself n).own (hself (n + 1)).own fun inner hinner => ?_)
    refine ih (hnested node hnode inner (Node.mem_bodies_of_mem_rendered hinner)) fun k m hm => ?_
    exact hcarries k m (Node.mem_partsOfBody.mpr
      ⟨node, hnode, Node.mem_parts_iff.mpr (.inr ⟨inner, hinner, hm⟩)⟩)

/-! ## Steps that stay within their room -/

/-- A step that started from `s` has not met the limit on scopes, and there are as many scopes as before. -/
structure EndsWithin (s : RenderState) (out : Outcome α × RenderState) : Prop where
  fails : FailsOnly Failure.NotNesting out.1
  calm : out.2.IsCalm
  depth : out.2.scopes.length = s.scopes.length

/-- From calm states that leave room for `n` more scopes, the step does not meet the limit on scopes. -/
def StaysWithin (σ : Settings) (n : Nat) (α : Type) (step : Render α) : Prop :=
  ∀ s, s.IsCalm → s.scopes.length + n ≤ maxScopes + 1 → EndsWithin s (step.runFrom σ s)

theorem EndsWithin.of_kept (hs : s.IsCalm) {out : Outcome α × RenderState}
    (hfails : FailsOnly Failure.NotNesting out.1) (hscopes : out.2.scopes = s.scopes)
    (herrors : out.2.errors = s.errors) : EndsWithin s out :=
  ⟨hfails, ⟨hscopes ▸ hs.scopes, herrors ▸ hs.errors⟩, by rw [hscopes]⟩

theorem EndsWithin.trans {t : RenderState} {out : Outcome α × RenderState} (h : EndsWithin t out)
    (hdepth : t.scopes.length = s.scopes.length) : EndsWithin s out :=
  ⟨h.fails, h.calm, h.depth.trans hdepth⟩

/-- A step that touches neither scopes nor errors, and does not fail with the error by itself. -/
theorem staysWithin_of_kept {x : Render α}
    (hfails : ∀ s, FailsOnly Failure.NotNesting (x.runFrom σ s).1)
    (hscopes : ∀ s, (x.runFrom σ s).2.scopes = s.scopes)
    (herrors : ∀ s, (x.runFrom σ s).2.errors = s.errors) : StaysWithin σ n α x :=
  fun s hs _ => .of_kept hs (hfails s) (hscopes s) (herrors s)

theorem staysWithin_raise {e : Failure} (he : e.NotNesting) : StaysWithin σ n α (throw e) :=
  staysWithin_of_kept (fun _ => failsOnly_error he) (fun _ => rfl) fun _ => rfl

theorem staysWithin_pure (a : α) : StaysWithin σ n α (pure a) :=
  staysWithin_of_kept (fun _ => failsOnly_ok a) (fun _ => rfl) fun _ => rfl

theorem staysWithin_bind {x : Render α} {f : α → Render β} (hx : StaysWithin σ n α x)
    (hf : ∀ a, StaysWithin σ n β (f a)) : StaysWithin σ n β (x >>= f) := by
  intro s hs hroom
  have hstep := hx s hs hroom
  rw [runFrom_bind]
  generalize x.runFrom σ s = out at hstep
  match out with
  | (.ok a, t) => exact (hf a t hstep.calm (hstep.depth ▸ hroom)).trans hstep.depth
  | (.error e, t) => exact ⟨failsOnly_error (hstep.fails e rfl), hstep.calm, hstep.depth⟩

theorem staysWithin_tryCatch {x : Render α} {f : Failure → Render α} (hx : StaysWithin σ n α x)
    (hf : ∀ e, e.NotNesting → StaysWithin σ n α (f e)) : StaysWithin σ n α (tryCatch x f) := by
  intro s hs hroom
  have hstep := hx s hs hroom
  rw [runFrom_tryCatch]
  generalize x.runFrom σ s = out at hstep
  match out with
  | (.ok a, t) => exact hstep
  | (.error e, t) =>
    exact (hf e (hstep.fails e rfl) t hstep.calm (hstep.depth ▸ hroom)).trans hstep.depth

/-- A step needs no less room than it has. -/
theorem StaysWithin.rise {x : Render α} (hx : StaysWithin σ n α x) : StaysWithin σ (n + 1) α x :=
  fun s hs hroom => hx s hs (Nat.le_of_succ_le hroom)

/-- What is refused with the text of a value is refused for no other reason. -/
theorem failsOnly_refusal {strict : Bool} {v : Value} {loops : Loops} {refusal : String → TemplateError}
    (hkind : ∀ text, (refusal text).kind ≠ .nesting) : FailsOnly Failure.NotNesting
      (if strict then (v.written loops).bind fun text => .error (.template (refusal text))
        else .ok Value.nil) := by
  split
  · refine FailsOnly.bind (fun e he => ?_) fun text _ =>
      failsOnly_error (Failure.notNesting_template (hkind text))
    exact ((Value.failsOnly_written loops v).isHost.isRefusal e he).notNesting
  · exact failsOnly_ok _

theorem stateClosed_staysWithin (σ : Settings) (n : Nat) : StateClosed (StaysWithin σ n) where
  inspect look hlook :=
    staysWithin_of_kept (fun s e he => (hlook σ.core s.core.unmetered e he).notNesting) (fun _ => rfl)
      fun _ => rfl
  bind := staysWithin_bind
  blame name _ hx := staysWithin_tryCatch hx fun e he => staysWithin_raise (he.blame name)
  bindHost v := by
    refine staysWithin_of_kept (fun s => ?_) (fun s => ?_) fun s => ?_
    all_goals rw [runFrom_bindHost]
    · exact failsOnly_ok v
    · rfl
    · rfl
  notify _ := staysWithin_of_kept (fun _ => failsOnly_ok _) (fun _ => rfl) fun _ => rfl
  undefined name := by
    refine staysWithin_of_kept (fun s => ?_) (fun s => ?_) fun s => ?_
    all_goals rw [runFrom_undefined]
    exact failsOnly_refusal fun _ => by simp [TemplateError.undefinedVariable]
  missing bound key := by
    refine staysWithin_of_kept (fun s => ?_) (fun s => ?_) fun s => ?_
    all_goals rw [runFrom_missing]
    exact failsOnly_refusal fun _ => by simp [TemplateError.undefinedMethod]
  lost key := by
    refine staysWithin_of_kept (fun s => ?_) (fun s => ?_) fun s => ?_
    all_goals rw [runFrom_lost]
    exact failsOnly_refusal fun _ => by simp [TemplateError.undefinedVariable]
  unregistered name v := by
    refine staysWithin_of_kept (fun s => ?_) (fun s => ?_) fun s => ?_
    all_goals rw [runFrom_unregistered]
    split
    · exact failsOnly_error (Failure.notNesting_template (by simp [TemplateError.undefinedFilter]))
    · exact failsOnly_ok v
  modifyRegisters _ _ _ := staysWithin_of_kept (fun _ => failsOnly_ok _) (fun _ => rfl) fun _ => rfl
  countScore _ := staysWithin_of_kept (fun _ => failsOnly_ok _) (fun _ => rfl) fun _ => rfl
  countAssigned _ := staysWithin_of_kept (fun _ => failsOnly_ok _) (fun _ => rfl) fun _ => rfl
  addLoop _ := staysWithin_of_kept (fun _ => failsOnly_ok _) (fun _ => rfl) fun _ => rfl
  advanceLoop _ := staysWithin_of_kept (fun _ => failsOnly_ok _) (fun _ => rfl) fun _ => rfl
  withLoop {α} {x} id hx := by
    intro s hs hroom
    obtain ⟨hfails, hcalm, hdepth⟩ := hx (s.enterLoop id) ⟨hs.scopes, hs.errors⟩ hroom
    rw [runFrom_withLoop]
    exact ⟨hfails, ⟨hcalm.scopes, hcalm.errors⟩, hdepth⟩

/-! ## Scopes -/

theorem staysWithin_modifyScopes {f : List Scope → List Scope}
    (hlength : ∀ scopes, (f scopes).length = scopes.length)
    (hcalm : ∀ scopes : List Scope, (∀ scope ∈ scopes, Scope.IsCalm scope) →
      ∀ scope ∈ f scopes, Scope.IsCalm scope) : StaysWithin σ n Unit (modifyScopes f) := by
  intro s hs _
  rw [runFrom_modifyScopes]
  split
  · exact ⟨failsOnly_error (Failure.notNesting_host _), hs, rfl⟩
  · exact ⟨failsOnly_ok _, ⟨hcalm s.scopes hs.scopes, hs.errors⟩, hlength s.scopes⟩

theorem staysWithin_setLocal (name : String) {v : Value} (hv : v.IsCalm) :
    StaysWithin σ n Unit (setLocal name v) := by
  refine staysWithin_modifyScopes (fun scopes => ?_) fun scopes hscopes =>
    forall_putInnermost (V := Value.IsCalm) hscopes hv
  cases scopes <;> rfl

theorem staysWithin_assign (name : String) {v : Value} (hv : v.IsCalm) :
    StaysWithin σ n Unit (assign name v) :=
  staysWithin_modifyScopes (fun scopes => length_putOutermost name v scopes) fun _ hscopes =>
    forall_putOutermost (V := Value.IsCalm) hscopes hv

/-- A scope needs room for one more. -/
theorem staysWithin_withScope {x : Render α} {scope : Scope} (hscope : Scope.IsCalm scope)
    (hx : StaysWithin σ n α x) : StaysWithin σ (n + 1) α (withScope scope x) := by
  intro s hs hroom
  have hfree : ¬ maxScopes < s.scopes.length := by omega
  obtain ⟨hfails, hcalm, hdepth⟩ := hx { s with scopes := scope :: s.scopes }
    ⟨List.forall_mem_cons.mpr ⟨hscope, hs.scopes⟩, hs.errors⟩ (by
      rw [List.length_cons]
      omega)
  rw [runFrom_withScope, if_neg hfree]
  refine ⟨hfails, ⟨fun scope hmem => hcalm.scopes scope (List.mem_of_mem_tail hmem), hcalm.errors⟩, ?_⟩
  change List.length (List.tail _) = _
  rw [List.length_tail, hdepth]
  rfl

theorem levelClosed_staysWithin (σ : Settings) (n : Nat) :
    LevelClosed (StaysWithin σ n) (StaysWithin σ n) (StaysWithin σ (n + 1)) Value.IsCalm :=
  have hcomposition (n : Nat) : CompositionClosed (StaysWithin σ n) := {
    pure := staysWithin_pure
    bind := staysWithin_bind
    loops := (stateClosed_staysWithin σ n).loops
    innermostLoop := staysWithin_of_kept (fun _ => failsOnly_ok _) (fun _ => rfl) fun _ => rfl
    countScore := (stateClosed_staysWithin σ n).countScore
    addLoop := (stateClosed_staysWithin σ n).addLoop
    advanceLoop := (stateClosed_staysWithin σ n).advanceLoop
    withLoop := (stateClosed_staysWithin σ n).withLoop }
  { below := hcomposition n
    above := hcomposition (n + 1)
    rise := StaysWithin.rise
    withScope := fun _ hscope => staysWithin_withScope hscope
    inner := id
    innerBind := staysWithin_bind
    setLocal := fun name _ hv => staysWithin_setLocal name hv
    loopValue := (Value.valueClosed_raisesOnly _).loop }

/-! ## Lookups -/

/-- What is inside a calm value is calm, and fails in other ways. -/
theorem hostValues_isCalm : HostValues (StaysWithin σ n) Value.IsCalm where
  toValueClosed := Value.valueClosed_raisesOnly _
  proxied hv e he := hv e (.proxy he)
  result hf e he := hf e (.result he)
  failing hf _ := staysWithin_raise (hf _ .function)
  method hd hm e he := hd e (.method hm he)
  property hd hm e he := hd e (.property hm he)
  member hd hm _ := staysWithin_raise (hd _ (.member hm))

theorem looksAt_staysWithin : LooksAt (· = σ) (StaysWithin σ n) := by
  intro α x y hsame hy s hs hroom
  rw [hsame σ rfl]
  exact hy s hs hroom

section

variable (hσ : σ.IsCalm)

include hσ

/-- Everything that names are looked up in is calm. -/
theorem calm_layers : Supplies (StaysWithin σ n) Value.IsCalm boundValues layers := by
  refine ⟨fun {β f} hf s hs hroom => ?_⟩
  have hlayers : layers.runFrom σ s = (.ok (s.scopes ++ σ.environments), s) := rfl
  rw [runFrom_bind, hlayers]
  refine hf _ (fun v hv => ?_) s hs hroom
  obtain ⟨scope, hscope, hv⟩ := List.mem_flatMap.mp hv
  obtain ⟨entry, hentry, rfl⟩ := List.mem_map.mp hv
  exact (List.mem_append.mp hscope).elim (fun h => hs.scopes scope h entry hentry)
    fun h => hσ.environments scope h entry hentry

theorem hostClosed_isCalm : HostClosed (StaysWithin σ n) Value.IsCalm :=
  (stateClosed_staysWithin σ n).hostClosed hostValues_isCalm (calm_layers hσ)

/-! ## Expressions and filters -/

omit hσ in
theorem staysWithin_ask (route : Route) (object key : Value) :
    StaysWithin σ n Unit (ask route object key) :=
  staysWithin_of_kept (fun _ => failsOnly_ok _) (fun _ => rfl) fun _ => rfl

theorem calm_evaluate {e : Expr} (he : e.Literals Value.IsCalm) :
    Supplies (StaysWithin σ n) Value.IsCalm only e.evaluate :=
  (stateClosed_staysWithin σ n).suppliesLiterals hostValues_isCalm (calm_layers hσ)
    (staysWithin_ask .path) he

omit hσ in
theorem calm_blame {x : Render Value} (name : String)
    (hx : Supplies (StaysWithin σ n) Value.IsCalm only x) :
    Supplies (StaysWithin σ n) Value.IsCalm only (tryCatch x fun e => throw (Filter.blame name e)) := by
  refine ⟨fun {β f} hf s hs hroom => ?_⟩
  have hstep := hx.run staysWithin_pure s hs hroom
  have hthen := hx.goOn hf s hs hroom
  rw [runFrom_bind] at hthen ⊢
  rw [runFrom_tryCatch]
  generalize x.runFrom σ s = out at hthen hstep
  match out with
  | (.ok v, t) => exact hthen
  | (.error e, t) => exact ⟨failsOnly_error ((hstep.fails e rfl).blame name), hstep.calm, hstep.depth⟩

theorem calm_invoke (name : String) (v : Value) (args : List Value) (kwargs : Named Value)
    (hv : v.IsCalm) (hargs : ∀ a ∈ args, a.IsCalm) (hkwargs : ∀ entry ∈ kwargs, entry.2.IsCalm) :
    Supplies (StaysWithin σ n) Value.IsCalm only (Filter.invoke name v args kwargs) := by
  have hclosed : StateClosed (StaysWithin σ n) := stateClosed_staysWithin σ n
  refine hclosed.suppliesInvoke looksAt_staysWithin (σ.filters.get? name)
    (fun _ hτ => hτ ▸ rfl) hv fun f hget => ?_
  obtain ⟨b, rfl⟩ := hσ.filters name f hget
  have husable : StepClosed.FilterUsable (StaysWithin σ n) Value.IsCalm (.builtin b) :=
    fun key item hitem => hclosed.suppliesProperty (hostClosed_isCalm hσ) hitem key
      (staysWithin_ask .item item key)
  exact calm_blame name
    (hclosed.suppliesFilter (Value.valueClosed_raisesOnly _) husable hv hargs hkwargs)

/-- Of the global filters, only a function of the host fails in ways of its own. -/
theorem staysWithin_filterGlobally (v : Value) : StaysWithin σ n Value (filterGlobally v) := by
  have hclosed : StateClosed (StaysWithin σ n) := stateClosed_staysWithin σ n
  intro s hs hroom
  unfold filterGlobally
  rw [runFrom_bind, runFrom_read]
  dsimp only
  split
  · exact staysWithin_pure _ s hs hroom
  · exact staysWithin_bind (hclosed.outputText v) (fun _ => staysWithin_pure _) s hs hroom
  · exact staysWithin_pure _ s hs hroom
  · exact staysWithin_pure _ s hs hroom
  · exact staysWithin_raise (Failure.notNesting_host _) s hs hroom
  · next f hf =>
    rw [runFrom_ofOutcome]
    exact ⟨hσ.globalFilter f hf v, hs, rfl⟩

/-! ## Nodes and bodies -/

omit hσ in
/-- What is thrown on is no such error either. -/
theorem notNesting_rethrown {e : Failure} (he : e.NotNesting) (line : Option Int) :
    (rethrown σ e line).NotNesting := by
  cases e with
  | template error => exact Failure.notNesting_template he.recorded
  | host h => exact Failure.notNesting_host h

omit hσ in
/-- The guard around a node records what the node fails with, which is not the error. -/
theorem staysWithin_placed {node : Node} (hnode : StaysWithin σ n Rendered node.render) :
    StaysWithin σ n Rendered (placed node node.render) := by
  intro s hs hroom
  have hstep := hnode s hs hroom
  rw [placed_eq_guarded, runFrom_guarded]
  generalize node.render.runFrom σ s = out at hstep
  obtain ⟨e | r, t⟩ := out
  · dsimp only
    split
    · exact hstep
    · have hrecorded : (errorAt σ e (node.line?.map Int.ofNat)).kind ≠ .nesting :=
        (hstep.fails e rfl).recorded
      refine ⟨?_, ⟨hstep.calm.scopes, ?_⟩, hstep.depth⟩
      · dsimp only
        split
        · exact failsOnly_error (notNesting_rethrown (hstep.fails e rfl) _)
        · exact failsOnly_ok _
      · exact List.forall_mem_append.mpr ⟨hstep.calm.errors, List.forall_mem_singleton.mpr hrecorded⟩
  · refine ⟨?_, ⟨hstep.calm.scopes, hstep.calm.errors⟩, hstep.depth⟩
    dsimp only
    split
    · exact failsOnly_error (Failure.notNesting_template (by simp [TemplateError.memoryLimit]))
    · exact failsOnly_ok _

/-- A node has a guard, and what it evaluates is calm. -/
theorem carries_staysWithin {node : Node} (hplain : ∀ e ∈ node.exprs, e.Literals Value.IsCalm) (n : Nat) :
    Carries (StaysWithin σ n) Value.IsCalm node where
  own := by
    have hclosed : StateClosed (StaysWithin σ n) := stateClosed_staysWithin σ n
    have hexprs : ∀ e ∈ node.exprs, Supplies (StaysWithin σ n) Value.IsCalm only e.evaluate :=
      fun e he => calm_evaluate hσ (hplain e he)
    refine hclosed.own hexprs (fun p hp => suppliesPipeline (calm_invoke hσ) p hp)
      (staysWithin_filterGlobally hσ) (fun v start stop hv => hv.slice start stop)
      (Value.valueClosed_raisesOnly _).str (fun name _ v hv => staysWithin_assign name hv)
      (fun _ => staysWithin_of_kept (fun _ => failsOnly_ok _) (fun _ => rfl) fun _ => rfl)
      fun header hheader => ?_
    cases node with
    | loop tag header' body otherwise =>
      cases hheader
      exact hclosed.suppliesItems (fun v start stop hv => hv.slice start stop) hexprs
        (fun v => staysWithin_of_kept (fun _ => failsOnly_ok _) (fun _ => rfl) fun _ => rfl)
        fun _ => staysWithin_of_kept (fun _ => failsOnly_ok _) (fun _ => rfl) fun _ => rfl
    | _ => cases hheader
  placed := staysWithin_placed

/-- **A body that is nested within `n` levels stays within the room for `n` scopes.** -/
theorem staysWithin_body {body : Body}
    (hplain : ∀ m ∈ Node.partsOfBody body, ∀ e ∈ m.exprs, e.Literals Value.IsCalm)
    (hnested : body.NestedWithin n) : StaysWithin σ n Rendered body.render :=
  body_of_levels (levelClosed_staysWithin σ) hnested fun n m hm =>
    carries_staysWithin hσ (hplain m hm) n

end

end Render

end Stencil
