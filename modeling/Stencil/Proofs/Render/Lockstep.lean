import Stencil.Proofs.Render.Containment
import Stencil.Proofs.Render.Growth

/-!
# Renders with and without ceilings

A render with ceilings does what the same render without them does, up to the first check that finds a
count above its ceiling; there it is cut off, and nothing inside the template resumes it.

* `Agrees L before free bound` relates the two ways a step ends, given the checks made before it.
* `Lockstep L α step` says that a step keeps this relation, and `lockstep_body` that every body does.
* `ceilings_transparent`: what this means for whole renders.
-/

namespace Stencil

/-! ## Ceilings -/

namespace Ceilings

/-- Every count is at most its ceiling. -/
def Allows (L : Ceilings) (c : Counts) : Prop :=
  (∀ n, L.length = some n → c.length ≤ n) ∧ (∀ n, L.score = some n → c.score ≤ n) ∧
    ∀ n, L.assigned = some n → c.assigned ≤ n

theorem exceeded_eq_false_iff (L : Ceilings) (c : Counts) :
    L.exceeded c = false ↔ L.Allows c := by
  obtain ⟨length, score, assigned⟩ := L
  cases length <;> cases score <;> cases assigned <;>
    simp [exceeded, Allows, and_assoc]

end Ceilings

/-- The same settings with other ceilings. -/
def Settings.under (σ : Settings) (L : Ceilings) : Settings := { σ with ceilings := L }

namespace Render

variable {α β : Type} {L : Ceilings} {before : List Check}

/-! ## Two ways to end -/

/-- The failure of an exceeded ceiling. -/
def exceededFailure : Failure := .template .memoryLimit

/-- A run was cut off at the check `c`, all accounts being as they were there. -/
structure CutOff (c : Check) (sofar : List Check) (free : RenderState)
    (bound : Outcome α × RenderState) : Prop where
  result : bound.1 = .error exceededFailure
  counts : bound.2.counts = c.counts
  checks : bound.2.checks = c :: sofar
  recorded : bound.2.errors.length = c.recorded
  errors : bound.2.errors <+: free.errors

/-- How the run with ceilings ends, given how the run without them does. -/
inductive Agrees (L : Ceilings) (before : List Check) (free bound : Outcome α × RenderState) : Prop
  /-- All new checks found the counts allowed, and both runs are the same. -/
  | through (new : List Check) (hchecks : free.2.checks = new ++ before)
      (hallowed : ∀ c ∈ new, L.Allows c.counts) (hsame : bound = free)
  /-- The first new check that found a count above its ceiling cut the run off. -/
  | cut (later : List Check) (c : Check) (earlier : List Check)
      (hchecks : free.2.checks = later ++ c :: (earlier ++ before))
      (hallowed : ∀ d ∈ earlier, L.Allows d.counts) (hover : ¬ L.Allows c.counts)
      (hcut : CutOff c (earlier ++ before) free.2 bound)

/-- Runs that made no check and do not look at the ceilings agree. -/
theorem Agrees.of_same {free bound : Outcome α × RenderState} (hchecks : free.2.checks = before)
    (hsame : bound = free) : Agrees L before free bound :=
  .through [] hchecks (fun _ hc => nomatch hc) hsame

/-- What follows a part in which all checks found the counts allowed. -/
theorem Agrees.after {new sofar : List Check} {free bound : Outcome α × RenderState}
    (hsofar : sofar = new ++ before) (hnew : ∀ c ∈ new, L.Allows c.counts)
    (hagrees : Agrees L sofar free bound) : Agrees L before free bound := by
  subst hsofar
  cases hagrees with
  | through newer hchecks hallowed hsame =>
    refine .through (newer ++ new) (by rw [hchecks, List.append_assoc]) (fun c hc => ?_) hsame
    exact (List.mem_append.mp hc).elim (hallowed c) (hnew c)
  | cut later c earlier hchecks hallowed hover hcut =>
    rw [← List.append_assoc] at hchecks hcut
    refine .cut later c (earlier ++ new) hchecks (fun d hd => ?_) hover hcut
    exact (List.mem_append.mp hd).elim (hallowed d) (hnew d)

/-- A run that was cut off stays so, whatever the run without ceilings does next. -/
theorem Agrees.of_cutOff {later earlier : List Check} {c : Check} {t : RenderState}
    {free : Outcome β × RenderState} {bound : Outcome α × RenderState}
    {bound' : Outcome β × RenderState} (hchecks : t.checks = later ++ c :: (earlier ++ before))
    (hallowed : ∀ d ∈ earlier, L.Allows d.counts) (hover : ¬ L.Allows c.counts)
    (hcut : CutOff c (earlier ++ before) t bound) (hgrown : Grown t free.2)
    (hresult : bound'.1 = .error exceededFailure) (hstate : bound'.2 = bound.2) :
    Agrees L before free bound' := by
  obtain ⟨new, hnew, -, -⟩ := hgrown.checks
  refine .cut (new ++ later) c earlier ?_ hallowed hover ?_
  · rw [hnew, hchecks, List.append_assoc]
  · refine ⟨hresult, ?_, ?_, ?_, ?_⟩
    · rw [hstate, hcut.counts]
    · rw [hstate, hcut.checks]
    · rw [hstate, hcut.recorded]
    · rw [hstate]
      exact hcut.errors.trans hgrown.errors

/-- Changes to anything but the accounts keep the agreement. -/
theorem Agrees.map_state {free bound : Outcome α × RenderState} (after : RenderState → RenderState)
    (hcounts : ∀ t, (after t).counts = t.counts) (hchecks : ∀ t, (after t).checks = t.checks)
    (herrors : ∀ t, (after t).errors = t.errors) (hagrees : Agrees L before free bound) :
    Agrees L before (free.1, after free.2) (bound.1, after bound.2) := by
  cases hagrees with
  | through new hnew hallowed hsame =>
    exact .through new ((hchecks _).trans hnew) hallowed (by rw [hsame])
  | cut later c earlier hnew hallowed hover hcut =>
    refine .cut later c earlier ((hchecks _).trans hnew) hallowed hover ?_
    refine ⟨hcut.result, (hcounts _).trans hcut.counts, (hchecks _).trans hcut.checks, ?_, ?_⟩
    · rw [herrors, hcut.recorded]
    · rw [herrors, herrors]
      exact hcut.errors

/-! ## Steps in lockstep -/

/-- With ceilings, the step does what it does without them, until it is cut off. -/
structure Lockstep (L : Ceilings) (α : Type) (step : Render α) : Prop where
  grown : Keeps (fun _ => Grown) α step
  agrees (σ : Settings) (s : RenderState) :
    Agrees L s.checks (step.runFrom (σ.under {}) s) (step.runFrom (σ.under L) s)

/-- A step that makes no check and does not look at the ceilings. -/
theorem lockstep_of_same {x : Render α} (hgrown : Keeps (fun _ => Grown) α x)
    (hchecks : ∀ σ s, (x.runFrom σ s).2.checks = s.checks)
    (hsame : ∀ (σ : Settings) s, x.runFrom (σ.under L) s = x.runFrom (σ.under {}) s) :
    Lockstep L α x :=
  ⟨hgrown, fun σ s => .of_same (hchecks _ s) (hsame σ s)⟩

theorem lockstep_bind {x : Render α} {f : α → Render β} (hx : Lockstep L α x)
    (hf : ∀ a, Lockstep L β (f a)) : Lockstep L β (x >>= f) := by
  refine ⟨accountRelation_grown.evaluation.keeps_bind hx.grown fun a => (hf a).grown, ?_⟩
  intro σ s
  have hstep := hx.agrees σ s
  rw [runFrom_bind, runFrom_bind]
  generalize x.runFrom (σ.under {}) s = free at hstep
  generalize x.runFrom (σ.under L) s = bound at hstep
  cases hstep with
  | through new hchecks hallowed hsame =>
    subst hsame
    match bound with
    | (.error e, t) => exact .through new hchecks hallowed rfl
    | (.ok a, t) => exact .after hchecks hallowed ((hf a).agrees σ t)
  | cut later c earlier hchecks hallowed hover hcut =>
    obtain ⟨result, u⟩ := bound
    cases hcut.result
    match free with
    | (.error e, t) => exact .of_cutOff hchecks hallowed hover hcut (.of_le (le_refl _) rfl rfl) rfl rfl
    | (.ok a, t) => exact .of_cutOff hchecks hallowed hover hcut ((hf a).grown _ t) rfl rfl

/-- A handler that throws an exceeded ceiling on does not resume a run that was cut off. -/
theorem lockstep_tryCatch {x : Render α} {f : Failure → Render α} (hx : Lockstep L α x)
    (hf : ∀ e, Lockstep L α (f e)) (hthrow : f exceededFailure = throw exceededFailure) :
    Lockstep L α (tryCatch x f) := by
  refine ⟨accountRelation_grown.evaluation.keeps_tryCatch hx.grown fun e => (hf e).grown, ?_⟩
  intro σ s
  have hstep := hx.agrees σ s
  rw [runFrom_tryCatch, runFrom_tryCatch]
  generalize x.runFrom (σ.under {}) s = free at hstep
  generalize x.runFrom (σ.under L) s = bound at hstep
  cases hstep with
  | through new hchecks hallowed hsame =>
    subst hsame
    match bound with
    | (.ok a, t) => exact .through new hchecks hallowed rfl
    | (.error e, t) => exact .after hchecks hallowed ((hf e).agrees σ t)
  | cut later c earlier hchecks hallowed hover hcut =>
    obtain ⟨result, u⟩ := bound
    cases hcut.result
    dsimp only
    rw [hthrow]
    match free with
    | (.ok a, t) => exact .of_cutOff hchecks hallowed hover hcut (.of_le (le_refl _) rfl rfl) rfl rfl
    | (.error e, t) => exact .of_cutOff hchecks hallowed hover hcut ((hf e).grown _ t) rfl rfl

theorem evaluationClosed_lockstep (L : Ceilings) : EvaluationClosed (Lockstep L) where
  inspect look hlook :=
    lockstep_of_same (accountRelation_grown.evaluation.closed.inspect look hlook) (fun _ _ => rfl)
      fun _ _ => rfl
  bind := lockstep_bind
  blame name _ hx := by
    refine lockstep_tryCatch hx (fun e => ?_) rfl
    exact lockstep_of_same (accountRelation_grown.evaluation.closed.raise _) (fun _ _ => rfl)
      fun _ _ => rfl
  bindHost v := by
    refine lockstep_of_same (accountRelation_grown.evaluation.closed.bindHost v) (fun σ s => ?_)
      fun σ s => ?_
    · unfold Render.bind
      split <;> rfl
    · unfold Render.bind
      split <;> rfl
  notify notices :=
    lockstep_of_same (accountRelation_grown.evaluation.closed.notify notices) (fun _ _ => rfl)
      fun _ _ => rfl
  undefined name := by
    refine lockstep_of_same (accountRelation_grown.evaluation.closed.undefined name) (fun σ s => ?_)
      fun σ s => ?_
    · rw [runFrom_undefined]
    · rw [runFrom_undefined, runFrom_undefined]
      rfl
  missing bound key := by
    refine lockstep_of_same (accountRelation_grown.evaluation.closed.missing bound key)
      (fun σ s => ?_) fun σ s => ?_
    · rw [runFrom_missing]
    · rw [runFrom_missing, runFrom_missing]
      rfl
  lost key := by
    refine lockstep_of_same (accountRelation_grown.evaluation.closed.lost key) (fun σ s => ?_)
      fun σ s => ?_
    · rw [runFrom_lost]
    · rw [runFrom_lost, runFrom_lost]
      rfl
  unregistered name v := by
    refine lockstep_of_same (accountRelation_grown.evaluation.closed.unregistered name v)
      (fun σ s => ?_) fun σ s => ?_
    · rw [runFrom_unregistered]
    · rw [runFrom_unregistered, runFrom_unregistered]
      rfl
  layers :=
    lockstep_of_same accountRelation_grown.evaluation.closed.layers (fun _ _ => rfl) fun _ _ => rfl
  raise e :=
    lockstep_of_same (accountRelation_grown.evaluation.closed.raise e) (fun _ _ => rfl) fun _ _ => rfl

theorem lockstep_modifyScopes (f : List Scope → List Scope) : Lockstep L Unit (modifyScopes f) := by
  refine lockstep_of_same (accountRelation_grown.keeps_modifyScopes f) (fun σ s => ?_) fun σ s => ?_
  · rw [runFrom_modifyScopes]
    split <;> rfl
  · rw [runFrom_modifyScopes, runFrom_modifyScopes]

theorem renderClosed_lockstep (L : Ceilings) : RenderClosed (Lockstep L) (Lockstep L) where
  toEvaluates := AskingClosed.evaluates {
    toEvaluationClosed := evaluationClosed_lockstep L
    ask := fun route object key =>
      lockstep_of_same (accountRelation_grown.asking.ask route object key) (fun _ _ => rfl)
        fun _ _ => rfl }
  modifyRegisters f hstack hoffset :=
    lockstep_of_same (accountRelation_grown.renderClosed.modifyRegisters f hstack hoffset)
      (fun _ _ => rfl) fun _ _ => rfl
  countScore n :=
    lockstep_of_same (accountRelation_grown.renderClosed.countScore n) (fun _ _ => rfl)
      fun _ _ => rfl
  countAssigned n :=
    lockstep_of_same (accountRelation_grown.renderClosed.countAssigned n) (fun _ _ => rfl)
      fun _ _ => rfl
  addLoop info :=
    lockstep_of_same (accountRelation_grown.renderClosed.addLoop info) (fun _ _ => rfl)
      fun _ _ => rfl
  advanceLoop id :=
    lockstep_of_same (accountRelation_grown.renderClosed.advanceLoop id) (fun _ _ => rfl)
      fun _ _ => rfl
  withLoop {α} {x} id hx := by
    refine ⟨accountRelation_grown.renderClosed.withLoop id hx.grown, fun σ s => ?_⟩
    rw [runFrom_withLoop, runFrom_withLoop]
    exact (hx.agrees σ (s.enterLoop id)).map_state _ (fun _ => rfl) (fun _ => rfl) fun _ => rfl
  withScope {α} {x} scope hx := by
    refine ⟨accountRelation_grown.renderClosed.withScope scope hx.grown, fun σ s => ?_⟩
    rw [runFrom_withScope, runFrom_withScope]
    split
    · exact .of_same rfl rfl
    · exact (hx.agrees σ { s with scopes := scope :: s.scopes }).map_state _ (fun _ => rfl)
        (fun _ => rfl) fun _ => rfl
  inner hx := hx
  innerBind := lockstep_bind
  setLocal _ _ := lockstep_modifyScopes _

theorem registerClosed_lockstep (L : Ceilings) : RegisterClosed (Lockstep L) where
  registers :=
    lockstep_of_same accountRelation_grown.registerClosed.registers (fun _ _ => rfl) fun _ _ => rfl
  visit v :=
    lockstep_of_same (accountRelation_grown.registerClosed.visit v) (fun _ _ => rfl) fun _ _ => rfl

/-! ## Checks -/

/-- The check after counting is where the run with ceilings goes on or is cut off. -/
theorem lockstep_countLength (length : Nat) : Lockstep L Unit (countLength length) := by
  refine ⟨grown_countLength length, fun σ s => ?_⟩
  have hfree : (countLength length).runFrom (σ.under {}) s = (.ok (), s.counted length) := by
    rw [runFrom_countLength]
    rfl
  rw [hfree, runFrom_countLength]
  cases hover : (σ.under L).ceilings.exceeded (s.counted length).counts with
  | false =>
    refine .through [_] rfl (fun c hc => ?_) rfl
    rw [List.mem_singleton.mp hc]
    exact (L.exceeded_eq_false_iff _).mp hover
  | true =>
    refine .cut [] { counts := (s.counted length).counts, recorded := s.errors.length } [] rfl
      (fun _ hd => nomatch hd) (fun hallowed => ?_) ⟨rfl, rfl, rfl, rfl, List.prefix_rfl⟩
    have hallowed' : L.exceeded (s.counted length).counts = false :=
      (L.exceeded_eq_false_iff _).mpr hallowed
    exact absurd hover (by rw [show (σ.under L).ceilings = L from rfl, hallowed']; decide)

theorem lockstep_handle (e : Failure) (line : Option Int) : Lockstep L String (handle e line) := by
  refine lockstep_of_same (grown_handle e line) (fun σ s => ?_) fun σ s => ?_
  · rw [runFrom_handle]
    rfl
  · rw [runFrom_handle, runFrom_handle]
    rfl

/-- The guard around a node does not resume a run that was cut off. -/
theorem lockstep_placed (node : Node) (hnode : Lockstep L Rendered node.render) :
    Lockstep L Rendered (placed node node.render) := by
  have hclosed := evaluationClosed_lockstep L
  rw [placed_eq_guarded]
  refine lockstep_tryCatch (lockstep_bind hnode fun r => lockstep_bind (lockstep_countLength _)
    fun _ => hclosed.pure _) (fun e => ?_) rfl
  split
  · exact hclosed.raise e
  · exact lockstep_bind (lockstep_handle e _) fun _ => hclosed.pure _

/-- **Every body runs in lockstep with and without ceilings.** -/
theorem lockstep_body (L : Ceilings) (body : Body) : Lockstep L Rendered body.render :=
  (renderClosed_lockstep L).body body fun m _ =>
    (renderClosed_lockstep L).supports (registerClosed_lockstep L)
      (fun _ _ _ => lockstep_modifyScopes _) (lockstep_placed m)

end Render

/-! ## Whole renders -/

open Render

/-- The render `F` with ceilings was cut off where the render `U` without them made the check `c`: it
gives nothing but the text of one memory error, which is recorded after the errors of `U` up to there. -/
structure AbortedAt (L : Ceilings) (style : ErrorStyle) (name : Option String) (U F : Finished)
    (later : List Check) (c : Check) (earlier : List Check) : Prop where
  /-- The check is the first one that found a count above its ceiling. -/
  first : U.state.checks = later ++ c :: earlier
  allowed : ∀ d ∈ earlier, L.Allows d.counts
  exceeding : ¬ L.Allows c.counts
  text : F.result = .ok (style.render (TemplateError.memoryLimit.locate none name))
  errors : F.state.errors =
    U.state.errors.take c.recorded ++ [TemplateError.memoryLimit.locate none name]
  /-- Nothing was counted or checked after it. -/
  counts : F.state.counts = c.counts
  checks : F.state.checks = c :: earlier

/-- The render ended with a text, and not because of a memory error. -/
def Finished.Completes (f : Finished) (text : String) : Prop :=
  f.result = .ok text ∧ ∀ e ∈ f.state.errors, e.kind ≠ .memory

theorem ne_memory_of_map_kind {errors : List TemplateError} {kinds : List ErrorKind}
    (hkinds : errors.map (·.kind) = kinds) (hnone : .memory ∉ kinds) :
    ∀ e ∈ errors, e.kind ≠ .memory := by
  intro e he hmemory
  rw [← hkinds] at hnone
  exact hnone (hmemory ▸ List.mem_map_of_mem he)

section

variable {σ : Settings} {L : Ceilings} {counts : Counts} {registers : Registers} {body : Body}
  {text : String}

/-- A render that completes did so by its body: a failure that leaves the body is thrown on, or is
recorded as a memory error. -/
theorem body_of_completes (hU : (Environment.run σ counts registers body).Completes text) :
    ∃ r t notices, body.render.runFrom σ { registers, counts } = (.ok r, t) ∧ r.text = text ∧
      (Environment.run σ counts registers body).state = { t with notices } := by
  obtain ⟨hresult, hown⟩ := hU
  cases hbody : body.render.runFrom σ { registers, counts } with
  | mk outcome t =>
    cases outcome with
    | ok r =>
      obtain ⟨notices, hrun⟩ := run_of_ok hbody
      rw [hrun] at hresult ⊢
      exact ⟨r, t, notices, rfl, Except.ok.inj hresult, rfl⟩
    | error e =>
      cases hfatal : e.isFatal with
      | false =>
        rw [run_of_error hbody, hfatal] at hresult
        cases hresult
      | true =>
        cases hrethrow : σ.rethrow with
        | true =>
          rw [run_of_error hbody, hfatal, hrethrow] at hresult
          cases hresult
        | false =>
          rw [run_of_fatal hrethrow hfatal hbody] at hown
          have hmem : errorAt σ e none ∈ (t.record (errorAt σ e none)).errors :=
            List.mem_append_right _ (List.mem_singleton_self _)
          -- only memory errors are fatal, so the error recorded at the end would be one
          have hkind : (errorAt σ e none).kind = .memory := by
            cases e with
            | host h => cases hfatal
            | template e => exact beq_iff_eq.mp hfatal
          exact absurd hkind (hown _ hmem)

/-- Nothing but its body makes a render depend on the ceilings. -/
theorem run_under_congr (hsame : body.render.runFrom (σ.under L) { registers, counts } =
    body.render.runFrom (σ.under {}) { registers, counts }) :
    Environment.run (σ.under L) counts registers body =
      Environment.run (σ.under {}) counts registers body :=
  run_congr rfl rfl rfl hsame

/-- When all checks found the counts allowed, the ceilings make no difference. -/
theorem run_under_of_allowed
    (hU : (Environment.run (σ.under {}) counts registers body).Completes text)
    (hall : ∀ c ∈ (Environment.run (σ.under {}) counts registers body).state.checks,
      L.Allows c.counts) :
    Environment.run (σ.under L) counts registers body =
      Environment.run (σ.under {}) counts registers body := by
  obtain ⟨r, t, notices, hfree, -, hstate⟩ := body_of_completes hU
  have hagrees := (lockstep_body L body).agrees σ { registers, counts }
  rw [hfree] at hagrees
  cases hagrees with
  | through new hchecks hallowed hsame => exact run_under_congr (hsame.trans hfree.symm)
  | cut later c earlier hchecks hallowed hover hcut =>
    -- the check that cut the run off is one of those that were allowed
    dsimp only at hchecks
    have hmem : c ∈ t.checks := by
      rw [hchecks]
      exact List.mem_append_right later List.mem_cons_self
    rw [hstate] at hall
    exact absurd (hall c hmem) hover

/-- When a check found a count above its ceiling, the render is aborted at the first such check. -/
theorem aborted_of_exceeding (hrethrow : σ.rethrow = false)
    (hU : (Environment.run (σ.under {}) counts registers body).Completes text)
    (hover : ∃ c ∈ (Environment.run (σ.under {}) counts registers body).state.checks,
      ¬ L.Allows c.counts) :
    ∃ later c earlier, AbortedAt L σ.errorStyle σ.templateName
      (Environment.run (σ.under {}) counts registers body)
      (Environment.run (σ.under L) counts registers body) later c earlier := by
  obtain ⟨r, t, notices, hfree, -, hstate⟩ := body_of_completes hU
  have hagrees := (lockstep_body L body).agrees σ { registers, counts }
  rw [hfree] at hagrees
  cases hagrees with
  | through new hchecks hallowed hsame =>
    obtain ⟨c, hc, hexceeding⟩ := hover
    rw [hstate] at hc
    dsimp only at hc hchecks
    rw [hchecks, List.append_nil] at hc
    exact absurd (hallowed c hc) hexceeding
  | cut later c earlier hchecks hallowed hexceeding hcut =>
    obtain ⟨u, hbound⟩ : ∃ u, body.render.runFrom (σ.under L) { registers, counts } =
        (.error exceededFailure, u) := ⟨_, Prod.ext hcut.result rfl⟩
    rw [hbound] at hcut
    have hrethrow' : (σ.under L).rethrow = false := hrethrow
    have hfatal : exceededFailure.isFatal = true := rfl
    have hF := run_of_fatal hrethrow' hfatal hbound
    have herrors : u.errors = t.errors.take c.recorded := by
      rw [← hcut.recorded]
      exact List.prefix_iff_eq_take.mp hcut.errors
    rw [List.append_nil] at hchecks hcut
    refine ⟨later, c, earlier, ?_⟩
    exact {
      first := by
        rw [hstate]
        exact hchecks
      allowed := hallowed
      exceeding := hexceeding
      text := by
        rw [hF]
        rfl
      errors := by
        rw [hF, hstate]
        exact congrArg (· ++ [TemplateError.memoryLimit.locate none σ.templateName]) herrors
      counts := by
        rw [hF]
        exact hcut.counts
      checks := by
        rw [hF]
        exact hcut.checks }

end

/-- **Ceilings are transparent until they abort.** Compare a render with ceilings to the same one
without them, which has not met a memory error of the host. If every check of the latter found the
counts allowed, both end in the same way and with the same state. Otherwise the former is aborted at
the first check that did not: neither an enclosing tag nor a later node gets in between. -/
theorem ceilings_transparent (env : Environment) (options : RenderOptions) (data : Option Scope)
    (registers : Registers) (t : Template) (entries : LimitEntries) (L : Ceilings)
    (hentries : Limits.ofEntries entries = .ok { ceilings := L })
    (hrethrow : options.rethrow = false) :
    ∃ U F, env.start { options with limits := some [] } data registers t = .ok U ∧
      env.start { options with limits := some entries } data registers t = .ok F ∧
      ((∀ e ∈ U.state.errors, e.kind ≠ .memory) →
        ((∀ c ∈ U.state.checks, L.Allows c.counts) → F = U) ∧
        ((∃ c ∈ U.state.checks, ¬ L.Allows c.counts) → ∃ later c earlier,
          AbortedAt L ((options.errorStyle.or env.errorStyle).getD .summary) t.name U F
            later c earlier)) := by
  have hnone : Limits.ofEntries [] = .ok {} := rfl
  have hU := start_of_ofEntries env { options with limits := some [] } hnone data registers t
  have hF := start_of_ofEntries env { options with limits := some entries } hentries data
    registers t
  refine ⟨_, _, hU, hF, fun hown => ?_⟩
  let σ := env.settings options {} t.name data (env.subrenderWithin Environment.maxSubrenders)
  have hrethrow' : (σ.under {}).rethrow = false := hrethrow
  obtain ⟨text, hresult⟩ := (contained_run hrethrow' {} registers t.body).text
  have hcompletes : (Environment.run (σ.under {}) {} registers t.body).Completes text :=
    ⟨hresult, hown⟩
  exact ⟨run_under_of_allowed hcompletes, aborted_of_exceeding hrethrow hcompletes⟩

/-- With room for 36 characters, the failure inside the choice is still put out, and the render is
aborted when the text of the choice is counted for the text around it. -/
theorem ceilings_transparent_failingChoice :
    Limits.ofEntries [("render_length_limit", some 36)] =
        .ok { ceilings := { length := some 36 } } ∧
      ∃ U F, ({} : Environment).start { limits := some [] } none {} failingChoice = .ok U ∧
        ({} : Environment).start { limits := some [("render_length_limit", some 36)] } none {}
          failingChoice = .ok F ∧
        (∀ e ∈ U.state.errors, e.kind ≠ .memory) ∧
        ∃ later c earlier,
          AbortedAt { length := some 36 } .summary none U F later c earlier := by
  have hentries : Limits.ofEntries [("render_length_limit", some 36)] =
      .ok { ceilings := { length := some 36 } } := rfl
  obtain ⟨U, F, hU, hF, htransparent⟩ :=
    ceilings_transparent {} {} none {} failingChoice _ _ hentries rfl
  have hkinds : (({} : Environment).start { limits := some [] } none {} failingChoice).map
      (fun U => U.state.errors.map (·.kind)) = .ok [.badArgument] := rfl
  have hchecks : (({} : Environment).start { limits := some [] } none {} failingChoice).map
      (fun U => U.state.checks.map (·.counts.length)) = .ok [38, 37, 2, 1] := rfl
  rw [hU] at hkinds hchecks
  replace hkinds : U.state.errors.map (·.kind) = [.badArgument] := Except.ok.inj hkinds
  replace hchecks : U.state.checks.map (·.counts.length) = [38, 37, 2, 1] :=
    Except.ok.inj hchecks
  have hown := ne_memory_of_map_kind hkinds (by decide)
  have hover : ∃ c ∈ U.state.checks, ¬ Ceilings.Allows { length := some 36 } c.counts := by
    have hmem : (38 : Int) ∈ U.state.checks.map (·.counts.length) := by
      rw [hchecks]
      exact List.mem_cons_self
    obtain ⟨c, hc, hlength⟩ := List.mem_map.mp hmem
    refine ⟨c, hc, fun hallowed => ?_⟩
    have hle := hallowed.1 36 rfl
    omega
  exact ⟨hentries, U, F, hU, hF, hown, (htransparent hown).2 hover⟩

end Stencil
