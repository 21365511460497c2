import Stencil.Proofs.Render.ScopeDiscipline

/-!
# Renders that do not look at what was remembered

Tags remember cycles, shown texts and where loops stopped in the registers, and later renders with the
same registers find all of this there. A template that never asks for it renders as with empty registers,
whatever happened in the renders before: the only other part of the registers are the running loops, and
between renders no loop is running.

* `Forgets α step`: how the step ends, and all it leaves behind but for what was remembered, does not
  depend on what was remembered.
* `Node.isForgetful`, `forgets_body`: this holds of bodies without cycles, changes and loops that continue.
* `rendering_idempotent`: the report of a render after others with the same registers.
-/

namespace Stencil

/-- A node does not look at what tags remember. -/
def Node.isForgetful (node : Node) : Bool :=
  !node.recalls && node.header?.all fun header => !header.continues

namespace Render

variable {α β : Type}

/-! ## Steps that do not look at a part of the state -/

/-- How a step ended and what it left, but for what is hidden. -/
def seenBut (hide : RenderState → RenderState) (out : Outcome α × RenderState) :
    Outcome α × RenderState :=
  (out.1, hide out.2)

/-- Under the settings, what is seen of a step does not depend on what is hidden. -/
def Hides (hide : RenderState → RenderState) (σ : Settings) (step : Render α) : Prop :=
  ∀ s, seenBut hide (step.runFrom σ s) = seenBut hide (step.runFrom σ (hide s))

namespace Hides

variable {hide : RenderState → RenderState} {σ : Settings} {s t : RenderState}

/-- From states that differ in what is hidden, the step ends in the same way. -/
theorem congr {x : Render α} (hx : Hides hide σ x) (hst : hide s = hide t) :
    seenBut hide (x.runFrom σ s) = seenBut hide (x.runFrom σ t) := by
  rw [hx, hst, ← hx]

theorem bind {x : Render α} {f : α → Render β} (hx : Hides hide σ x)
    (hf : ∀ a, Hides hide σ (f a)) : Hides hide σ (x >>= f) := by
  intro s
  have hstep := hx s
  rw [runFrom_bind, runFrom_bind]
  generalize x.runFrom σ s = out at hstep
  generalize x.runFrom σ (hide s) = out' at hstep
  obtain ⟨outcome, t⟩ := out
  obtain ⟨outcome', t'⟩ := out'
  obtain ⟨rfl, hhidden⟩ := Prod.mk.inj hstep
  cases outcome with
  | error e => exact Prod.ext rfl hhidden
  | ok a => exact (hf a).congr hhidden

theorem tryCatch {x : Render α} {f : Failure → Render α} (hx : Hides hide σ x)
    (hf : ∀ e, Hides hide σ (f e)) : Hides hide σ (MonadExcept.tryCatch x f) := by
  intro s
  have hstep := hx s
  rw [runFrom_tryCatch, runFrom_tryCatch]
  generalize x.runFrom σ s = out at hstep
  generalize x.runFrom σ (hide s) = out' at hstep
  obtain ⟨outcome, t⟩ := out
  obtain ⟨outcome', t'⟩ := out'
  obtain ⟨rfl, hhidden⟩ := Prod.mk.inj hstep
  cases outcome with
  | ok a => exact hstep
  | error e => exact (hf e).congr hhidden

end Hides

/-! ## Steps that do not look at what was remembered -/

/-- How a step ended and what it left, without what tags remember. -/
def seen (out : Outcome α × RenderState) : Outcome α × RenderState := (out.1, out.2.core)

/-- What is seen of the step does not depend on what was remembered before. -/
def Forgets (α : Type) (step : Render α) : Prop :=
  ∀ σ s, seen (step.runFrom σ s) = seen (step.runFrom σ s.core)

theorem Forgets.hides {x : Render α} (hx : Forgets α x) (σ : Settings) : Hides RenderState.core σ x := hx σ

/-- From states that differ in what was remembered, the step ends in the same way. -/
theorem Forgets.congr {x : Render α} (hx : Forgets α x) {σ : Settings} {s t : RenderState}
    (hcore : s.core = t.core) : seen (x.runFrom σ s) = seen (x.runFrom σ t) :=
  (hx.hides σ).congr hcore

theorem forgets_bind {x : Render α} {f : α → Render β} (hx : Forgets α x)
    (hf : ∀ a, Forgets β (f a)) : Forgets β (x >>= f) :=
  fun σ => (hx.hides σ).bind fun a => (hf a).hides σ

theorem forgets_tryCatch {x : Render α} {f : Failure → Render α} (hx : Forgets α x)
    (hf : ∀ e, Forgets α (f e)) : Forgets α (tryCatch x f) :=
  fun σ => (hx.hides σ).tryCatch fun e => (hf e).hides σ

theorem evaluationClosed_forgets : EvaluationClosed Forgets where
  inspect _ _ _ _ := rfl
  bind := forgets_bind
  blame _ _ hx := forgets_tryCatch hx fun _ _ _ => rfl
  bindHost v σ s := by
    rw [runFrom_bindHost, runFrom_bindHost]
    rfl
  notify _ _ _ := rfl
  undefined name σ s := by
    rw [runFrom_undefined, runFrom_undefined]
    rfl
  missing bound key σ s := by
    rw [runFrom_missing, runFrom_missing]
    rfl
  lost key σ s := by
    rw [runFrom_lost, runFrom_lost]
    rfl
  unregistered name v σ s := by
    rw [runFrom_unregistered, runFrom_unregistered]
    rfl
  layers _ _ := rfl
  raise _ _ _ := rfl

theorem forgets_ask (route : Route) (object key : Value) : Forgets Unit (ask route object key) := by
  intro σ s
  cases object <;> rfl

theorem forgets_modifyScopes (f : List Scope → List Scope) : Forgets Unit (modifyScopes f) := by
  intro σ s
  rw [runFrom_modifyScopes, runFrom_modifyScopes, show s.core.scopes = s.scopes from rfl]
  split <;> rfl

theorem renderClosed_forgets : RenderClosed Forgets Forgets where
  toEvaluates :=
    AskingClosed.evaluates { toEvaluationClosed := evaluationClosed_forgets, ask := forgets_ask }
  modifyRegisters f hstack _ σ s := by
    rw [runFrom_modifyRegisters, runFrom_modifyRegisters]
    simp only [seen, RenderState.core, hstack]
  countScore _ _ _ := rfl
  countAssigned _ _ _ := rfl
  addLoop _ _ _ := rfl
  advanceLoop _ _ _ := rfl
  withLoop {α} {x} id hx := by
    intro σ s
    have hstep := hx σ (s.enterLoop id)
    rw [runFrom_withLoop, runFrom_withLoop]
    obtain ⟨hresult, hcore⟩ := Prod.mk.inj hstep
    exact Prod.ext hresult (congrArg RenderState.leaveLoop hcore)
  withScope {α} {x} scope hx := by
    intro σ s
    have hstep := hx σ { s with scopes := scope :: s.scopes }
    rw [runFrom_withScope, runFrom_withScope, show s.core.scopes = s.scopes from rfl]
    split
    · rfl
    · obtain ⟨hresult, hcore⟩ := Prod.mk.inj hstep
      exact Prod.ext hresult (congrArg RenderState.leave hcore)
  inner hx := hx
  innerBind := forgets_bind
  setLocal _ _ := forgets_modifyScopes _

theorem forgets_countLength (length : Nat) : Forgets Unit (countLength length) := by
  intro σ s
  rw [runFrom_countLength, runFrom_countLength]
  rfl

theorem forgets_handle (e : Failure) (line : Option Int) : Forgets String (handle e line) := by
  intro σ s
  rw [runFrom_handle, runFrom_handle]
  rfl

theorem forgets_placed (node : Node) (hnode : Forgets Rendered node.render) :
    Forgets Rendered (placed node node.render) := by
  have hclosed := evaluationClosed_forgets
  rw [placed_eq_guarded]
  refine forgets_tryCatch (forgets_bind hnode fun r => forgets_bind (forgets_countLength _) fun _ =>
    hclosed.pure _) fun e => ?_
  split
  · exact hclosed.raise e
  · exact forgets_bind (forgets_handle e _) fun _ => hclosed.pure _

theorem supports_forgets {node : Node} (hnode : node.isForgetful = true) : Supports Forgets node where
  assign _ _ _ := forgets_modifyScopes _
  registers hrecalls := by simp [Node.isForgetful, hrecalls] at hnode
  items header hheader := by
    -- the place where a loop stops is noted, and only a loop that continues would look at it
    refine renderClosed_forgets.itemsOf header (fun _ _ _ => rfl) fun hcontinues => ?_
    simp [Node.isForgetful, hheader, hcontinues] at hnode
  placed := forgets_placed node

/-- **A body of forgetful nodes does not look at what was remembered.** -/
theorem forgets_body {body : Body} (hbody : ∀ m ∈ Node.partsOfBody body, m.isForgetful = true) :
    Forgets Rendered body.render :=
  renderClosed_forgets.body body fun m hm => supports_forgets (hbody m hm)

theorem forgets_renderWhole {body : Body} (hbody : ∀ m ∈ Node.partsOfBody body, m.isForgetful = true) :
    Forgets String body.renderWhole := by
  have hclosed := evaluationClosed_forgets
  unfold Body.renderWhole
  refine forgets_tryCatch (forgets_bind (forgets_body hbody) fun r => ?_) fun e => ?_
  · split
    · exact fun _ _ => rfl
    · exact hclosed.pure _
  · split
    · exact forgets_handle e none
    · exact hclosed.raise e

end Render

/-! ## Whole renders -/

open Render

/-- Registers in which the same loops are running give the same render. -/
theorem run_of_forgetful {body : Body} (hbody : ∀ m ∈ Node.partsOfBody body, m.isForgetful = true)
    (σ : Settings) (counts : Counts) {r r' : Registers} (hloops : r.loopStack = r'.loopStack) :
    (Environment.run σ counts r body).result = (Environment.run σ counts r' body).result ∧
      (Environment.run σ counts r body).state.core =
        (Environment.run σ counts r' body).state.core := by
  have hcore : ({ registers := r, counts } : RenderState).core =
      ({ registers := r', counts } : RenderState).core := by
    simp only [RenderState.core, hloops]
  exact Prod.mk.inj ((forgets_renderWhole hbody).congr hcore)

/-- **Rendering is idempotent.** After any renders that share its registers, with any data, options and
ways to end, a template without cycles, changes and loops that continue renders as it does with fresh
registers: with the same result, the same errors and counts, and the same notices. -/
theorem rendering_idempotent (env : Environment) (t : Template)
    (hforgetful : ∀ m ∈ Node.partsOfBody t.body, m.isForgetful = true) (earlier : List SharedRender)
    (call : Outcome (RenderOptions × Option Scope)) :
    let again := t.render env call (Registers.afterRenders {} earlier)
    let fresh := t.render env call {}
    again.result = fresh.result ∧ again.template = fresh.template ∧ again.notices = fresh.notices := by
  have hloops : (Registers.afterRenders {} earlier).loopStack = ({} : Registers).loopStack :=
    loopStack_afterRenders {} earlier
  unfold Template.render
  cases call with
  | error e => exact ⟨rfl, rfl, rfl⟩
  | ok given =>
    obtain ⟨options, data⟩ := given
    dsimp only [Except.bind]
    cases hlimits : Limits.ofEntries (options.limits.getD env.limits) with
    | error e =>
      rw [start_of_refused env options hlimits, start_of_refused env options hlimits]
      exact ⟨rfl, rfl, rfl⟩
    | ok limits =>
      rw [start_of_ofEntries env options hlimits, start_of_ofEntries env options hlimits]
      obtain ⟨hresult, hcore⟩ := run_of_forgetful hforgetful (env.settings options limits t.name data
        (env.subrenderWithin Environment.maxSubrenders)) limits.counts hloops
      have herrors := congrArg RenderState.errors hcore
      have hcounts := congrArg RenderState.counts hcore
      have hnotices := congrArg RenderState.notices hcore
      dsimp only [RenderState.core] at herrors hcounts hnotices ⊢
      refine ⟨hresult, ?_, hnotices⟩
      rw [herrors, hcounts]

/-- A loop in a loop, of which the inner one puts numbers out and fails for other items. -/
def gridTemplate : Template where
  body := [.loop ⟨"for", "x in rows", some 1⟩
    { itemName := "x", name := "x-rows", collection := .lookup (.value (.str "rows")) [] }
    [.loop ⟨"for", "y in x", some 1⟩
      { itemName := "y", name := "y-x", collection := .lookup (.value (.str "x")) [] }
      [.output {
        pipeline := {
          expr := .lookup (.value (.str "y")) []
          filters := [{ name := "divided_by", args := [.lookup (.value (.str "y")) []] }] }
        markup := "y | divided_by: y", line := some 1 }] none] none]

/-- Rows of numbers. -/
def gridRows (rows : List (List Int)) : Scope :=
  [("rows", .list (rows.map fun row => .list (row.map .int)))]

/-- A render that throws an error on and one that exceeds a ceiling, both in the inner loop. -/
def gridRenders : List SharedRender := [
  ⟨{}, gridTemplate, .ok ({ rethrow := true }, some (gridRows [[1, 0], [1]]))⟩,
  ⟨{}, gridTemplate, .ok ({ limits := some [("render_length_limit", some 2)] },
    some (gridRows [[1, 1], [1, 1]]))⟩]

set_option maxRecDepth 4000 in
/-- The earlier renders were cut off and left a place in the registers, and the rows are put out as if they
were put out first. -/
theorem rendering_idempotent_grid :
    (∀ m ∈ Node.partsOfBody gridTemplate.body, m.isForgetful = true) ∧
      (Registers.afterRenders {} gridRenders).offset "y-x" = 2 ∧
      (gridTemplate.render {} (.ok ({}, some (gridRows [[1], [1, 1]])))
        (Registers.afterRenders {} gridRenders)).result = .ok "111" := by
  have hforgetful : ∀ m ∈ Node.partsOfBody gridTemplate.body, m.isForgetful = true := by decide
  have hagain := rendering_idempotent {} gridTemplate hforgetful gridRenders
    (.ok ({}, some (gridRows [[1], [1, 1]])))
  exact ⟨hforgetful, rfl, hagain.1.trans rfl⟩

end Stencil
