import Stencil.Proofs.Render.Containment
import Stencil.Proofs.Render.Growth
import Stencil.Proofs.Tree.Lines

/-!
# Throwing errors on

With rethrow on, the first failure that is recorded is thrown out of the guard that recorded it and
through the guards around it, each of which records and throws it again. It comes out as it went in,
because the first guard filled in what the later ones would: its line and the name of the template.

* `Follows known name before inline thrown` relates the two ways a step ends.
* `Rethrows known α step` says that a step keeps this relation, and `rethrows_body` that every body does
  all of whose nodes have a line, or none of which has.
-/

namespace Stencil

/-- The same settings, with failures thrown on or put out. -/
def Settings.rethrowing (σ : Settings) (on : Bool) : Settings := { σ with rethrow := on }

namespace TemplateError

/-- The failure behind a recorded error: that of the host it was recorded in place of, or itself. -/
def failure (e : TemplateError) : Failure :=
  match e.insteadOf with
  | some h => .host h
  | none => .template e

/-- The error has all of its place that guards may fill in: those around it know the name of the
template, and a line only if lines are known. -/
def Placed (known : Bool) (name : Option String) (e : TemplateError) : Prop :=
  ∀ line : Option Int, (line.isSome → known) → e.locate line name = e

end TemplateError

namespace Render

variable {α β : Type} {known : Bool} {name : Option String} {σ : Settings} {s : RenderState}

/-! ## Recorded failures -/

/-- What is thrown on is the failure behind what was recorded. -/
theorem rethrown_eq_failure (σ : Settings) (failure : Failure) (line : Option Int) :
    rethrown σ failure line = (errorAt σ failure line).failure := by
  cases failure <;> rfl

/-- A second guard finds nothing to fill in. -/
theorem placed_errorAt (failure : Failure) (line : Option Int) (hline : line.isSome = known) :
    (errorAt σ failure line).Placed known σ.templateName := by
  intro outer houter
  -- the line of the failure, else that of this guard, else no guard has one
  have hor : ((failure.recorded.line.or line).or outer) = failure.recorded.line.or line := by
    cases failure.recorded.line with
    | some n => rfl
    | none =>
      cases line with
      | some n => rfl
      | none =>
        subst hline
        cases outer with
        | none => rfl
        | some n => cases houter rfl
  simp only [errorAt, TemplateError.locate, hor, Option.or_assoc, Option.or_self]

/-- A guard throws a failure on as it is, when the error behind it has its place. -/
theorem rethrown_failure {e : TemplateError} (hplaced : e.Placed known σ.templateName)
    {line : Option Int} (hline : line.isSome → known) : rethrown σ e.failure line = e.failure := by
  unfold TemplateError.failure
  cases hinstead : e.insteadOf with
  | some h => rfl
  | none =>
    have hrecorded : ({ e with insteadOf := none } : TemplateError) = e := by
      rw [← hinstead]
    change Failure.template (({ e with insteadOf := none } : TemplateError).locate _ _) = _
    rw [hrecorded, hplaced line hline]

/-! ## Two ways to end -/

/-- How a step ends when failures are thrown on, given how it ends when they are put out and the errors
recorded before. -/
inductive Follows (known : Bool) (name : Option String) (before : List TemplateError)
    (inline thrown : Outcome α × RenderState) : Prop
  /-- No error was recorded, and both runs are the same. -/
  | through (herrors : inline.2.errors = before) (hsame : thrown = inline)
  /-- The failure behind the first recorded error was thrown. -/
  | raised (first : TemplateError) (later : List TemplateError)
      (herrors : inline.2.errors = before ++ first :: later) (hplaced : first.Placed known name)
      (hthrown : thrown.1 = .error first.failure)

/-- What was thrown stays so, whatever the other run does next. -/
theorem Follows.of_raised {before : List TemplateError} {first : TemplateError}
    {later : List TemplateError} {t : RenderState} {inline thrown : Outcome α × RenderState}
    (herrors : t.errors = before ++ first :: later) (hgrown : Grown t inline.2)
    (hplaced : first.Placed known name) (hthrown : thrown.1 = .error first.failure) :
    Follows known name before inline thrown := by
  obtain ⟨more, hmore⟩ := hgrown.errors
  refine .raised first (later ++ more) ?_ hplaced hthrown
  rw [← hmore, herrors, List.append_assoc, List.cons_append]

/-- Changes to anything but the errors keep the relation. -/
theorem Follows.map_state {before : List TemplateError} {inline thrown : Outcome α × RenderState}
    (after : RenderState → RenderState) (hafter : ∀ t, (after t).errors = t.errors)
    (hfollows : Follows known name before inline thrown) :
    Follows known name before (inline.1, after inline.2) (thrown.1, after thrown.2) := by
  cases hfollows with
  | through herrors hsame => exact .through ((hafter _).trans herrors) (by rw [hsame])
  | raised first later herrors hplaced hthrown =>
    exact .raised first later ((hafter _).trans herrors) hplaced hthrown

/-! ## Steps -/

/-- With rethrow on, the step does what it does otherwise, until the first error is recorded. -/
structure Rethrows (known : Bool) (α : Type) (step : Render α) : Prop where
  grown : Keeps (fun _ => Grown) α step
  follows (σ : Settings) (s : RenderState) : Follows known σ.templateName s.errors
    (step.runFrom (σ.rethrowing false) s) (step.runFrom (σ.rethrowing true) s)

/-- A step that records no error and does not ask whether failures are thrown on. -/
theorem rethrows_of_same {x : Render α} (hgrown : Keeps (fun _ => Grown) α x) (hquiet : Quiet α x)
    (hsame : ∀ (σ : Settings) s,
      x.runFrom (σ.rethrowing true) s = x.runFrom (σ.rethrowing false) s) :
    Rethrows known α x :=
  ⟨hgrown, fun σ s => .through (hquiet _ s) (hsame σ s)⟩

theorem rethrows_bind {x : Render α} {f : α → Render β} (hx : Rethrows known α x)
    (hf : ∀ a, Rethrows known β (f a)) : Rethrows known β (x >>= f) := by
  refine ⟨accountRelation_grown.evaluation.keeps_bind hx.grown fun a => (hf a).grown, ?_⟩
  intro σ s
  have hstep := hx.follows σ s
  rw [runFrom_bind, runFrom_bind]
  generalize x.runFrom (σ.rethrowing false) s = inline at hstep
  generalize x.runFrom (σ.rethrowing true) s = thrown at hstep
  cases hstep with
  | through herrors hsame =>
    -- both runs go on from one state, in which no more errors are recorded than before
    subst hsame
    match thrown with
    | (.error e, t) => exact .through herrors rfl
    | (.ok a, t) =>
      rw [← show t.errors = s.errors from herrors]
      exact (hf a).follows σ t
  | raised first later herrors hplaced hthrown =>
    -- one run is over; the other one may go on, but what it recorded first stays first
    obtain ⟨result, u⟩ := thrown
    cases hthrown
    match inline with
    | (.error e, t) => exact .raised first later herrors hplaced rfl
    | (.ok a, t) => exact .of_raised herrors ((hf a).grown _ t) hplaced rfl

/-- What gives a failure a name comes in front of all guards, so that nothing is recorded yet. -/
theorem rethrows_blame {x : Render α} (name : String) (hquiet : Quiet α x)
    (hx : Rethrows known α x) :
    Rethrows known α (tryCatch x fun e => throw (Filter.blame name e)) := by
  have hclosed := evaluates_quiet
  refine rethrows_of_same (accountRelation_grown.evaluation.closed.blame name hquiet hx.grown)
    (hclosed.blame name hquiet hquiet) fun σ s => ?_
  -- the runs could only part at an error, and a quiet step records none
  have hsame : x.runFrom (σ.rethrowing true) s = x.runFrom (σ.rethrowing false) s := by
    cases hx.follows σ s with
    | through _ hsame => exact hsame
    | raised first later herrors _ _ =>
      rw [hquiet] at herrors
      exact absurd (List.self_eq_append_right.mp herrors) (List.cons_ne_nil _ _)
  rw [runFrom_tryCatch, runFrom_tryCatch, hsame]
  rfl

theorem evaluationClosed_rethrows (known : Bool) : EvaluationClosed (Rethrows known) where
  inspect look hlook :=
    rethrows_of_same (accountRelation_grown.evaluation.closed.inspect look hlook)
      (evaluates_quiet.inspect look hlook) fun _ _ => rfl
  bind := rethrows_bind
  blame := rethrows_blame
  bindHost v := by
    refine rethrows_of_same (accountRelation_grown.evaluation.closed.bindHost v)
      (evaluates_quiet.bindHost v) fun σ s => ?_
    unfold Render.bind
    split <;> rfl
  notify notices :=
    rethrows_of_same (accountRelation_grown.evaluation.closed.notify notices)
      (evaluates_quiet.notify notices) fun _ _ => rfl
  undefined name := by
    refine rethrows_of_same (accountRelation_grown.evaluation.closed.undefined name)
      (evaluates_quiet.undefined name) fun σ s => ?_
    rw [runFrom_undefined, runFrom_undefined]
    rfl
  missing bound key := by
    refine rethrows_of_same (accountRelation_grown.evaluation.closed.missing bound key)
      (evaluates_quiet.missing bound key) fun σ s => ?_
    rw [runFrom_missing, runFrom_missing]
    rfl
  lost key := by
    refine rethrows_of_same (accountRelation_grown.evaluation.closed.lost key)
      (evaluates_quiet.lost key) fun σ s => ?_
    rw [runFrom_lost, runFrom_lost]
    rfl
  unregistered name v := by
    refine rethrows_of_same (accountRelation_grown.evaluation.closed.unregistered name v)
      (evaluates_quiet.unregistered name v) fun σ s => ?_
    rw [runFrom_unregistered, runFrom_unregistered]
    rfl
  layers :=
    rethrows_of_same accountRelation_grown.evaluation.closed.layers evaluates_quiet.layers
      fun _ _ => rfl
  raise e :=
    rethrows_of_same (accountRelation_grown.evaluation.closed.raise e) (evaluates_quiet.raise e)
      fun _ _ => rfl

theorem rethrows_modifyScopes (f : List Scope → List Scope) :
    Rethrows known Unit (modifyScopes f) := by
  refine rethrows_of_same (accountRelation_grown.keeps_modifyScopes f) (fun σ s => ?_) fun σ s => ?_
  · rw [runFrom_modifyScopes]
    split <;> rfl
  · rw [runFrom_modifyScopes, runFrom_modifyScopes]

theorem renderClosed_rethrows (known : Bool) : RenderClosed (Rethrows known) (Rethrows known) where
  toEvaluates := AskingClosed.evaluates {
    toEvaluationClosed := evaluationClosed_rethrows known
    ask := fun route object key =>
      rethrows_of_same (accountRelation_grown.asking.ask route object key) (fun _ _ => rfl)
        fun _ _ => rfl }
  modifyRegisters f hstack hoffset :=
    rethrows_of_same (accountRelation_grown.renderClosed.modifyRegisters f hstack hoffset)
      (fun _ _ => rfl) fun _ _ => rfl
  countScore n :=
    rethrows_of_same (accountRelation_grown.renderClosed.countScore n) (fun _ _ => rfl)
      fun _ _ => rfl
  countAssigned n :=
    rethrows_of_same (accountRelation_grown.renderClosed.countAssigned n) (fun _ _ => rfl)
      fun _ _ => rfl
  addLoop info :=
    rethrows_of_same (accountRelation_grown.renderClosed.addLoop info) (fun _ _ => rfl)
      fun _ _ => rfl
  advanceLoop id :=
    rethrows_of_same (accountRelation_grown.renderClosed.advanceLoop id) (fun _ _ => rfl)
      fun _ _ => rfl
  withLoop {α} {x} id hx := by
    refine ⟨accountRelation_grown.renderClosed.withLoop id hx.grown, fun σ s => ?_⟩
    rw [runFrom_withLoop, runFrom_withLoop]
    exact (hx.follows σ (s.enterLoop id)).map_state _ fun _ => rfl
  withScope {α} {x} scope hx := by
    refine ⟨accountRelation_grown.renderClosed.withScope scope hx.grown, fun σ s => ?_⟩
    rw [runFrom_withScope, runFrom_withScope]
    split
    · exact .through rfl rfl
    · exact (hx.follows σ { s with scopes := scope :: s.scopes }).map_state _ fun _ => rfl
  inner hx := hx
  innerBind := rethrows_bind
  setLocal _ _ := rethrows_modifyScopes _

theorem registerClosed_rethrows (known : Bool) : RegisterClosed (Rethrows known) where
  registers :=
    rethrows_of_same accountRelation_grown.registerClosed.registers (fun _ _ => rfl) fun _ _ => rfl
  visit v :=
    rethrows_of_same (accountRelation_grown.registerClosed.visit v) (fun _ _ => rfl) fun _ _ => rfl

/-! ## Guards -/

theorem rethrows_countLength (length : Nat) : Rethrows known Unit (countLength length) := by
  refine rethrows_of_same (grown_countLength length) (fun σ s => ?_) fun σ s => ?_
  · rw [runFrom_countLength]
    rfl
  · rw [runFrom_countLength, runFrom_countLength]
    rfl

/-- The guard around a node is where the two runs part, and what went through a guard inside the node
goes through this one as it is. -/
theorem rethrows_guarded {x : Render Rendered} (blank : Bool) {line : Option Nat}
    (hline : line.isSome = known) (hgrown : Keeps (fun _ => Grown) Rendered (guarded blank line x))
    (hx : Rethrows known Rendered x) : Rethrows known Rendered (guarded blank line x) := by
  have hline' : (line.map Int.ofNat).isSome = known := by rw [Option.isSome_map, hline]
  refine ⟨hgrown, fun σ s => ?_⟩
  have hstep := hx.follows σ s
  rw [runFrom_guarded, runFrom_guarded]
  generalize x.runFrom (σ.rethrowing false) s = inline at hstep
  generalize x.runFrom (σ.rethrowing true) s = thrown at hstep
  cases hstep with
  | through herrors hsame =>
    subst hsame
    match thrown with
    | (.ok r, t) => exact .through herrors rfl
    | (.error e, t) =>
      cases hfatal : e.isFatal with
      | true =>
        simp only [hfatal, if_true]
        exact .through herrors rfl
      | false =>
        -- the node is where the runs part: its error is put out in one and thrown in the other
        simp only [hfatal, Bool.false_eq_true, if_false]
        refine .raised (errorAt σ e (line.map Int.ofNat)) [] ?_ (placed_errorAt e _ hline') ?_
        · exact congrArg (· ++ [errorAt σ e (line.map Int.ofNat)]) herrors
        · exact congrArg Except.error (rethrown_eq_failure σ e (line.map Int.ofNat))
  | raised first later herrors hplaced hthrown =>
    obtain ⟨result, u⟩ := thrown
    cases hthrown
    refine .of_raised herrors ?_ hplaced ?_
    · -- whatever this guard does when errors are put out, it takes none back
      match inline with
      | (.ok r, t) => exact grown_counted t _
      | (.error e, t) =>
        dsimp only
        split
        · exact .of_le (le_refl _) rfl rfl
        · exact grown_record t _
    · dsimp only
      split
      · rfl
      · have hagain : rethrown σ first.failure (line.map Int.ofNat) = first.failure :=
          rethrown_failure hplaced fun hsome => hline'.symm.trans hsome
        exact congrArg Except.error hagain

/-- Text is not guarded, and a guarded node has the line its guard fills in. -/
theorem rethrows_placed {node : Node} (hnode : node.HasLine known)
    (hrender : Rethrows known Rendered node.render) :
    Rethrows known Rendered (placed node node.render) := by
  have hgrown := grown_placed node hrender.grown
  rcases hnode with ⟨text, rfl⟩ | hline
  · exact rethrows_bind (rethrows_countLength _) fun _ => (evaluationClosed_rethrows known).pure _
  · rw [placed_eq_guarded] at hgrown ⊢
    exact rethrows_guarded _ hline hgrown hrender

/-- **Every body throws on the first error it records**, when all its nodes have a line or none has. -/
theorem rethrows_body {body : Body} (hlines : body.Lined known) :
    Rethrows known Rendered body.render :=
  (renderClosed_rethrows known).body body fun m hm =>
    (renderClosed_rethrows known).supports (registerClosed_rethrows known)
      (fun _ _ _ => rethrows_modifyScopes _) (rethrows_placed (hlines m hm))

end Render

/-! ## Whole renders -/

open Render

/-- What a render does when failures are thrown on, given what it does when they are put out: it ends
in the same way unless an error is recorded, and otherwise with the failure behind the first one. -/
structure ThrowsFirst (inline thrown : Finished) : Prop where
  same : inline.state.errors = [] → thrown = inline ∧ ∃ text, inline.result = .ok text
  first (e : TemplateError) (later : List TemplateError) :
    inline.state.errors = e :: later → thrown.result = .error e.failure

section

variable {known : Bool} {σ : Settings} {counts : Counts} {registers : Registers} {body : Body}

/-- With rethrow on, a body that fails makes the whole render fail; a fatal failure is recorded
first. -/
theorem result_of_error {e : Failure} {t : RenderState} (hrethrow : σ.rethrow = true)
    (hbody : body.render.runFrom σ { registers, counts } = (.error e, t)) :
    (Environment.run σ counts registers body).result =
      .error (if e.isFatal then rethrown σ e none else e) := by
  rw [run_of_error hbody, hrethrow]
  cases e.isFatal <;> rfl

/-- When failures are put out, a body that fails does so fatally, and this is recorded last. -/
theorem errors_of_error {e : Failure} {t : RenderState} (hrethrow : σ.rethrow = false)
    (hbody : body.render.runFrom σ { registers, counts } = (.error e, t)) :
    e.isFatal = true ∧ (Environment.run σ counts registers body).state.errors =
      t.errors ++ [errorAt σ e none] := by
  have hfatal : e.isFatal = true := isFatal_of_body hrethrow hbody
  refine ⟨hfatal, ?_⟩
  rw [run_of_fatal hrethrow hfatal hbody]
  rfl

/-- When the body records no error, either the render ends in the same way both times, or its one error
is a fatal one that is recorded at the end. -/
theorem throwsFirst_of_through {t : RenderState} {outcome : Outcome Rendered}
    (hinline : body.render.runFrom (σ.rethrowing false) { registers, counts } = (outcome, t))
    (hthrown : body.render.runFrom (σ.rethrowing true) { registers, counts } = (outcome, t))
    (hnone : t.errors = []) :
    ThrowsFirst (Environment.run (σ.rethrowing false) counts registers body)
      (Environment.run (σ.rethrowing true) counts registers body) := by
  cases outcome with
  | ok r =>
    obtain ⟨notices, hrun⟩ := run_of_ok hinline
    have hwhole : body.renderWhole.runFrom (σ.rethrowing true) { registers, counts } =
        body.renderWhole.runFrom (σ.rethrowing false) { registers, counts } := by
      rw [runFrom_renderWhole, runFrom_renderWhole, hinline, hthrown]
      rfl
    have hsame : Environment.run (σ.rethrowing true) counts registers body =
        Environment.run (σ.rethrowing false) counts registers body :=
      congrArg (fun o => Finished.mk o.1 o.2) hwhole
    refine ⟨fun _ => ⟨hsame, r.text, by rw [hrun]⟩, fun e later herrors => ?_⟩
    rw [hrun] at herrors
    exact absurd (hnone.symm.trans herrors) (List.cons_ne_nil e later).symm
  | error e =>
    obtain ⟨hfatal, hone⟩ := errors_of_error rfl hinline
    rw [hnone, List.nil_append] at hone
    refine ⟨fun herrors => ?_, fun first later herrors => ?_⟩
    · exact absurd (hone.symm.trans herrors) (List.cons_ne_nil _ _)
    · obtain ⟨hfirst, -⟩ := List.cons.inj (hone.symm.trans herrors)
      rw [result_of_error rfl hthrown, if_pos hfatal, ← hfirst]
      exact congrArg Except.error (rethrown_eq_failure σ e none)

/-- **A render throws on the first error it records**, when all nodes have a line or none has. -/
theorem throwsFirst_run (hlines : body.Lined known) :
    ThrowsFirst (Environment.run (σ.rethrowing false) counts registers body)
      (Environment.run (σ.rethrowing true) counts registers body) := by
  have hbody := (rethrows_body hlines).follows σ { registers, counts }
  cases hinline : body.render.runFrom (σ.rethrowing false) { registers, counts } with
  | mk outcome t =>
    rw [hinline] at hbody
    cases hbody with
    | through herrors hsame => exact throwsFirst_of_through hinline hsame herrors
    | raised first later herrors hplaced hresult =>
      -- whether the body goes on or ends fatally, the first error stays the first
      have hfirst : ∃ more, (Environment.run (σ.rethrowing false) counts registers body).state.errors
          = first :: more := by
        cases outcome with
        | ok r =>
          obtain ⟨notices, hrun⟩ := run_of_ok hinline
          exact ⟨later, by rw [hrun]; exact herrors⟩
        | error e =>
          obtain ⟨-, hmore⟩ := errors_of_error rfl hinline
          rw [herrors] at hmore
          exact ⟨later ++ [errorAt (σ.rethrowing false) e none], hmore⟩
      obtain ⟨more, hmore⟩ := hfirst
      have hthrown : (Environment.run (σ.rethrowing true) counts registers body).result =
          .error first.failure := by
        rw [result_of_error rfl (Prod.ext hresult rfl)]
        have hagain : rethrown (σ.rethrowing true) first.failure none = first.failure :=
          rethrown_failure hplaced fun hsome => nomatch hsome
        split
        · rw [hagain]
        · rfl
      refine ⟨fun hnone => ?_, fun e others herrors => ?_⟩
      · exact absurd (hmore.symm.trans hnone) (List.cons_ne_nil _ _)
      · obtain ⟨rfl, -⟩ := List.cons.inj (hmore.symm.trans herrors)
        exact hthrown

end

/-- **A render with rethrow on throws the first error it would have recorded.** Of every template that
has been read, with any options, data and registers, and however deep in the tree the failing node is:
if the render records no error when failures are put out, it gives the same text when they are thrown on,
and otherwise it throws the failure behind the first error. A render that cannot be started because its
limits are not valid is refused in the same way both times. -/
theorem rethrow_throws_first (reader env : Environment) (overrides : ParseOverrides)
    (name : Option String) (source : String) (t : Template) (options : RenderOptions)
    (data : Option Scope) (registers : Registers)
    (hread : (reader.parse overrides name source).1 = .ok t) :
    (∃ inline thrown,
      env.start { options with rethrow := false } data registers t = .ok inline ∧
      env.start { options with rethrow := true } data registers t = .ok thrown ∧
      ThrowsFirst inline thrown) ∨
    (¬ Limits.Valid (options.limits.getD env.limits) ∧ ∃ e,
      env.start { options with rethrow := false } data registers t = .error e ∧
      env.start { options with rethrow := true } data registers t = .error e) := by
  cases hentries : Limits.ofEntries (options.limits.getD env.limits) with
  | error e =>
    refine .inr ⟨fun hvalid => ?_, e,
      start_of_refused env { options with rethrow := false } hentries data registers t,
      start_of_refused env { options with rethrow := true } hentries data registers t⟩
    obtain ⟨limits, hlimits⟩ := Limits.ofEntries_of_valid hvalid
    cases hentries.symm.trans hlimits
  | ok limits =>
    obtain ⟨known, hlines⟩ := lined_of_parse hread
    let σ := env.settings options limits t.name data (env.subrenderWithin Environment.maxSubrenders)
    have hruns : ThrowsFirst (Environment.run (σ.rethrowing false) limits.counts registers t.body)
        (Environment.run (σ.rethrowing true) limits.counts registers t.body) :=
      throwsFirst_run hlines
    have hinline :=
      start_of_ofEntries env { options with rethrow := false } hentries data registers t
    have hthrown :=
      start_of_ofEntries env { options with rethrow := true } hentries data registers t
    exact .inl ⟨_, _, hinline, hthrown, hruns⟩

/-- The source of a failing output inside a choice. -/
def failingSource : String :=
  "a\x7b% if true %\x7d\x7b\x7b 1 | divided_by: 0 \x7d\x7d\x7b% endif %\x7d"

/-- The failure inside the choice is thrown out of the choice and out of the render, with the line it
is recorded with. -/
theorem rethrow_throws_first_failingSource :
    ∃ t inline thrown first, (({} : Environment).parse {} none failingSource).1 = .ok t ∧
      ({} : Environment).start {} none {} t = .ok inline ∧
      ({} : Environment).start { rethrow := true } none {} t = .ok thrown ∧
      inline.state.errors = [first] ∧ first.line = some 1 ∧ first.message = "divided by 0" ∧
      thrown.result = .error (.template first) := by
  have herrors : (({} : Environment).parse {} none failingSource).1.toOption.bind (fun t =>
      (({} : Environment).start {} none {} t).toOption.map (·.state.errors.map
        fun e => (e.line, e.message, e.insteadOf))) =
      some [(some 1, "divided by 0", none)] := by decide +kernel
  cases ht : (({} : Environment).parse {} none failingSource).1 with
  | error e =>
    rw [ht] at herrors
    cases herrors
  | ok t =>
    obtain ⟨inline, thrown, hinline, hthrown, hthrows⟩ | ⟨hvalid, -⟩ :=
      rethrow_throws_first {} {} {} none failingSource t {} none {} ht
    · -- the first and only error is that of the division
      simp only [ht, hinline, Except.toOption, Option.bind_some, Option.map_some] at herrors
      obtain ⟨first, hfirst, hplace⟩ := List.map_eq_singleton_iff.mp (Option.some.inj herrors)
      obtain ⟨hline, hmessage⟩ := Prod.mk.inj hplace
      obtain ⟨hmessage, hinstead⟩ := Prod.mk.inj hmessage
      refine ⟨t, inline, thrown, first, rfl, hinline, hthrown, hfirst, hline, hmessage, ?_⟩
      have hfailure : first.failure = .template first := by
        unfold TemplateError.failure
        rw [hinstead]
      rw [hthrows.first first [] hfirst, hfailure]
    · exact absurd (fun _ hentry => nomatch hentry) hvalid

end Stencil
