import Stencil.Template.Render

/-!
# Running the steps of a render

A step of a render is run from settings and a state, and gives an outcome and the state it leaves,
also when the outcome is a failure. `runFrom` is that view of a step. Each way of putting steps
together and each operation on the state has one equation here, so that later modules never open the
monad.
-/

namespace Stencil

/-- The state after characters were counted and the ceilings checked. -/
def RenderState.counted (s : RenderState) (length : Nat) : RenderState :=
  { s with counts := { s.counts with length := s.counts.length + length } }.noteCheck

/-- The state with one more running loop. -/
def RenderState.enterLoop (s : RenderState) (id : Nat) : RenderState :=
  { s with registers := { s.registers with loopStack := id :: s.registers.loopStack } }

/-- The state without its innermost running loop. -/
def RenderState.leaveLoop (s : RenderState) : RenderState :=
  { s with registers := { s.registers with loopStack := s.registers.loopStack.tail } }

/-- The state with a value bound to the render, if it is a host object. -/
def RenderState.binding (s : RenderState) (v : Value) : RenderState :=
  { s with
    boundDrops := match v with
      | .drop id _ => id :: s.boundDrops.erase id
      | _ => s.boundDrops
    boundLoops := match v with
      | .loop id => id :: s.boundLoops.erase id
      | _ => s.boundLoops }

/-- The state with one more recorded error. -/
def RenderState.record (s : RenderState) (e : TemplateError) : RenderState :=
  { s with errors := s.errors ++ [e] }

/-- Whether the text of a node is counted and then left out. Text itself never is. -/
def Node.isHidden : Node → Bool
  | .text _ => false
  | node => node.isBlank

namespace Render

variable {α β : Type}

/-- How a step ends when it starts from a state, and the state it leaves. -/
def runFrom (step : Render α) (settings : Settings) (s : RenderState) : Outcome α × RenderState :=
  (step settings).run s

/-- Steps that end in the same way from everywhere are the same. -/
theorem ext {x y : Render α} (h : ∀ σ s, x.runFrom σ s = y.runFrom σ s) : x = y :=
  funext fun σ => funext fun s => h σ s

variable (σ : Settings) (s : RenderState)

/-! ## Putting steps together -/

@[simp] theorem runFrom_pure (a : α) : runFrom (pure a) σ s = (.ok a, s) := rfl

@[simp] theorem runFrom_fail (e : TemplateError) :
    runFrom (fail e : Render α) σ s = (.error (.template e), s) := rfl

@[simp] theorem runFrom_ofOutcome (o : Outcome α) : runFrom (ofOutcome o) σ s = (o, s) := by
  cases o <;> rfl

/-- A sequence of two steps ends with the first failure, and the second step starts from the state
the first one left. -/
theorem runFrom_bind (x : Render α) (f : α → Render β) :
    (x >>= f).runFrom σ s =
      match x.runFrom σ s with
      | (.ok a, t) => (f a).runFrom σ t
      | (.error e, t) => (.error e, t) := by
  unfold runFrom ExceptT.run
  simp only [Bind.bind, ReaderT.bind, ExceptT.bind, ExceptT.mk, StateT.bind, ExceptT.bindCont]
  cases x σ s with
  | mk r t => cases r <;> rfl

/-- A sequence that ends well is made of two steps that do. -/
theorem bind_eq_ok {σ : Settings} {s t : RenderState} {x : Render α} {f : α → Render β} {b : β}
    (hrun : (x >>= f).runFrom σ s = (.ok b, t)) :
    ∃ a u, x.runFrom σ s = (.ok a, u) ∧ (f a).runFrom σ u = (.ok b, t) := by
  rw [runFrom_bind] at hrun
  cases hx : x.runFrom σ s with
  | mk outcome u =>
    rw [hx] at hrun
    cases outcome with
    | error e => cases hrun
    | ok a => exact ⟨a, u, rfl, hrun⟩

/-- A handler starts from the state in which the failure arose. -/
theorem runFrom_tryCatch (x : Render α) (f : Failure → Render α) :
    runFrom (tryCatch x f) σ s =
      match x.runFrom σ s with
      | (.ok a, t) => (.ok a, t)
      | (.error e, t) => (f e).runFrom σ t := by
  simp only [runFrom, tryCatch, tryCatchThe, MonadExceptOf.tryCatch, ExceptT.tryCatch]
  unfold ExceptT.run ExceptT.mk
  simp only [Bind.bind, StateT.bind]
  cases x σ s with
  | mk r t => cases r <;> rfl

theorem runFrom_ensuring (x : Render α) (after : RenderState → RenderState) :
    (ensuring x after).runFrom σ s = ((x.runFrom σ s).1, after (x.runFrom σ s).2) := rfl

/-! ## Settings and state -/

@[simp] theorem runFrom_read : runFrom read σ s = (.ok σ, s) := rfl

@[simp] theorem runFrom_get : runFrom get σ s = (.ok s, s) := rfl

@[simp] theorem runFrom_modify (f : RenderState → RenderState) :
    runFrom (modify f) σ s = (.ok (), f s) := rfl

@[simp] theorem runFrom_modifyCounts (f : Counts → Counts) :
    (modifyCounts f).runFrom σ s = (.ok (), { s with counts := f s.counts }) := rfl

@[simp] theorem runFrom_modifyRegisters (f : Registers → Registers) :
    (modifyRegisters f).runFrom σ s = (.ok (), { s with registers := f s.registers }) := rfl

@[simp] theorem runFrom_ask (route : Route) (object key : Value) :
    (ask route object key).runFrom σ s = (.ok (), s.noteAsk route object key) := rfl

@[simp] theorem runFrom_visit (v : Visit) : (visit v).runFrom σ s = (.ok (), s.noteVisit v) := rfl

theorem runFrom_bindHost (v : Value) : (Render.bind v).runFrom σ s = (.ok v, s.binding v) := by
  cases v <;> rfl

/-- A step that gives the same whenever it ends well may be followed by what it gives. -/
theorem eq_bind_pure {x : Render α} {a : α}
    (hgives : ∀ σ s b t, x.runFrom σ s = (.ok b, t) → b = a) : x = x >>= fun _ => pure a := by
  refine ext fun σ s => ?_
  rw [runFrom_bind]
  cases hrun : x.runFrom σ s with
  | mk outcome t =>
    cases outcome with
    | error e => rfl
    | ok b =>
      rw [hgives σ s b t hrun]
      rfl

@[simp] theorem runFrom_registers : registers.runFrom σ s = (.ok s.registers, s) := rfl

@[simp] theorem runFrom_innermostLoop :
    innermostLoop.runFrom σ s = (.ok s.registers.loopStack.head?, s) := rfl

theorem runFrom_outputText (v : Value) : (outputText v).runFrom σ s = (v.output s.loops, s) :=
  runFrom_ofOutcome ..

theorem runFrom_checkCeilings :
    checkCeilings.runFrom σ s =
      (if σ.ceilings.exceeded s.counts then .error (.template .memoryLimit) else .ok (),
        s.noteCheck) := by
  simp only [checkCeilings, runFrom_bind, runFrom_modify, runFrom_read, runFrom_get]
  -- the check is noted first, which changes no count
  rw [show s.noteCheck.counts = s.counts from rfl]
  split <;> rfl

theorem runFrom_countLength (length : Nat) :
    (countLength length).runFrom σ s =
      (if σ.ceilings.exceeded (s.counted length).counts then .error (.template .memoryLimit)
        else .ok (), s.counted length) := by
  simp only [countLength, runFrom_bind, runFrom_modifyCounts, runFrom_checkCeilings]
  rfl

theorem runFrom_enter (scope : Scope) :
    (enter scope).runFrom σ s =
      if maxScopes < s.scopes.length then (.error (.template .nestingTooDeep), s)
      else (.ok (), { s with scopes := scope :: s.scopes }) := by
  simp only [enter, runFrom_bind, runFrom_get]
  split <;> rfl

theorem runFrom_modifyScopes (f : List Scope → List Scope) :
    (modifyScopes f).runFrom σ s =
      if s.scopes.isEmpty then (.error (.host ⟨.outOfRange, "there is no scope"⟩), s)
      else (.ok (), { s with scopes := f s.scopes }) := by
  simp only [modifyScopes, runFrom_bind, runFrom_get]
  split <;> rfl

/-- A scope that could be entered is left however the step ends. -/
theorem runFrom_withScope (scope : Scope) (x : Render α) :
    (withScope scope x).runFrom σ s =
      if maxScopes < s.scopes.length then (.error (.template .nestingTooDeep), s)
      else ((x.runFrom σ { s with scopes := scope :: s.scopes }).1,
        (x.runFrom σ { s with scopes := scope :: s.scopes }).2.leave) := by
  by_cases hdeep : maxScopes < s.scopes.length
  · simp only [withScope, runFrom_bind, runFrom_enter, if_pos hdeep]
  · simp only [withScope, runFrom_bind, runFrom_enter, if_neg hdeep, runFrom_ensuring]

/-- A loop is the innermost running one until its step ends, in whatever way. -/
theorem runFrom_withLoop (id : Nat) (x : Render α) :
    (withLoop id x).runFrom σ s =
      ((x.runFrom σ (s.enterLoop id)).1, (x.runFrom σ (s.enterLoop id)).2.leaveLoop) := by
  simp only [withLoop, runFrom_bind, runFrom_modifyRegisters]
  rfl

/-! ## Strictness

The four steps that ask whether a render is strict leave the state as it is. -/

theorem runFrom_undefined (name : Value) :
    (undefined name).runFrom σ s =
      (if σ.strictVariables then (name.written s.loops).bind fun text =>
          .error (.template (.undefinedVariable false text (if name.isText then
            (s.scopes ++ σ.environments).flatMap fun layer => layer.map (·.1) else [])))
        else .ok .nil, s) := by
  simp only [undefined, runFrom_bind, runFrom_read]
  split
  · cases h : name.written s.loops <;>
      simp only [loops, layers, runFrom_bind, runFrom_get, runFrom_pure, runFrom_ofOutcome,
        runFrom_read, runFrom_fail, h, Except.bind]
  · rfl

theorem runFrom_missing (bound : Bool) (key : Value) :
    (missing bound key).runFrom σ s =
      (if bound && σ.strictVariables then (key.written s.loops).bind fun text =>
          .error (.template (.undefinedMethod text))
        else .ok .nil, s) := by
  simp only [missing, runFrom_bind, runFrom_read]
  split
  · cases h : key.written s.loops <;>
      simp only [loops, runFrom_bind, runFrom_get, runFrom_pure, runFrom_ofOutcome, runFrom_fail,
        h, Except.bind]
  · rfl

theorem runFrom_lost (key : Value) :
    (lost key).runFrom σ s =
      (if σ.strictVariables then (key.written s.loops).bind fun text =>
          .error (.template (.undefinedVariable false text []))
        else .ok .nil, s) := by
  simp only [lost, runFrom_bind, runFrom_read]
  split
  · cases h : key.written s.loops <;>
      simp only [loops, runFrom_bind, runFrom_get, runFrom_pure, runFrom_ofOutcome, runFrom_fail,
        h, Except.bind]
  · rfl

theorem runFrom_unregistered (name : String) (v : Value) :
    (Filter.unregistered name v).runFrom σ s =
      (if σ.strictFilters then .error (.template (.undefinedFilter name)) else .ok v, s) := by
  simp only [Filter.unregistered, runFrom_bind, runFrom_read]
  split <;> rfl

section

variable {σ : Settings} {s t : RenderState} {v w key : Value}

/-- What may be refused with the text of a value gives nil if it is not. -/
theorem eq_nil_of_refusal {strict : Bool} {text : Outcome String} {refusal : String → Failure}
    (hok : (if strict then text.bind fun text => .error (refusal text) else .ok .nil) = .ok v) :
    v = .nil := by
  split at hok
  · cases text <;> cases hok
  · exact (Except.ok.inj hok).symm

theorem undefined_eq_ok {name : Value} (hrun : (undefined name).runFrom σ s = (.ok v, t)) :
    v = .nil := by
  rw [runFrom_undefined] at hrun
  exact eq_nil_of_refusal (Prod.mk.inj hrun).1

theorem missing_eq_ok {bound : Bool} (hrun : (missing bound key).runFrom σ s = (.ok v, t)) :
    v = .nil := by
  rw [runFrom_missing] at hrun
  exact eq_nil_of_refusal (Prod.mk.inj hrun).1

theorem lost_eq_ok (hrun : (lost key).runFrom σ s = (.ok v, t)) : v = .nil := by
  rw [runFrom_lost] at hrun
  exact eq_nil_of_refusal (Prod.mk.inj hrun).1

theorem unregistered_eq_ok {name : String}
    (hrun : (Filter.unregistered name v).runFrom σ s = (.ok w, t)) : w = v := by
  rw [runFrom_unregistered] at hrun
  split at hrun
  · cases hrun
  · exact (Except.ok.inj (Prod.mk.inj hrun).1).symm

end

/-! ## Recording failures -/

/-- The error that is recorded for a failure met at a line. -/
def errorAt (σ : Settings) (failure : Failure) (line : Option Int) : TemplateError :=
  failure.recorded.locate line σ.templateName

/-- What is thrown on for a failure that was recorded: an error of a template with its place, an
error of the host as it was. -/
def rethrown (σ : Settings) (failure : Failure) (line : Option Int) : Failure :=
  match failure with
  | .template _ => .template (errorAt σ failure line)
  | .host h => .host h

theorem runFrom_handle (failure : Failure) (line : Option Int) :
    (handle failure line).runFrom σ s =
      (if σ.rethrow then .error (rethrown σ failure line)
        else .ok (σ.errorStyle.render (errorAt σ failure line)),
        s.record (errorAt σ failure line)) := by
  simp only [handle, runFrom_bind, runFrom_modify, runFrom_read]
  -- the error is recorded in both cases
  split
  · cases failure <;> rfl
  · rfl

/-! ## Guarded nodes -/

theorem runFrom_scored (size : Nat) (x : Render Rendered) :
    (scored size x).runFrom σ s =
      x.runFrom σ { s with counts := { s.counts with score := s.counts.score + size } } := by
  simp only [scored, runFrom_bind, runFrom_modifyCounts]

/-- The guard counts and checks what a step puts out, and records its failure unless it is fatal. -/
theorem runFrom_guarded (blank : Bool) (line : Option Nat) (x : Render Rendered) :
    (guarded blank line x).runFrom σ s =
      match x.runFrom σ s with
      | (.ok r, t) =>
        (if σ.ceilings.exceeded (t.counted r.text.length).counts then
            .error (.template .memoryLimit)
          else .ok (if blank then { r with text := "" } else r), t.counted r.text.length)
      | (.error e, t) =>
        if e.isFatal then (.error e, t)
        else
          (if σ.rethrow then .error (rethrown σ e (line.map Int.ofNat))
            else .ok { text := σ.errorStyle.render (errorAt σ e (line.map Int.ofNat)) },
            t.record (errorAt σ e (line.map Int.ofNat))) := by
  simp only [guarded, runFrom_tryCatch, runFrom_bind, runFrom_countLength]
  generalize x.runFrom σ s = out
  match out with
  | (.ok r, t) =>
    -- the only failure of the count is an exceeded ceiling, which the handler throws on
    by_cases hover : σ.ceilings.exceeded (t.counted r.text.length).counts
    · simp only [if_pos hover]
      rfl
    · simp only [if_neg hover]
      rfl
  | (.error e, t) =>
    by_cases hfatal : e.isFatal
    · simp only [if_pos hfatal]
      rfl
    · simp only [if_neg hfatal, runFrom_bind, runFrom_pure, runFrom_handle]
      cases σ.rethrow <;> rfl

/-- Every node of a body is guarded. Text cannot fail, so that the guard only counts and checks it. -/
theorem placed_eq_guarded (node : Node) :
    placed node node.render = guarded node.isHidden node.line? node.render := by
  cases node with
  | text text =>
    refine ext fun σ s => ?_
    have htext : (Node.render (.text text)).runFrom σ s = (.ok { text := text }, s) := by
      rw [Node.render]
      rfl
    rw [runFrom_guarded, htext]
    simp only [placed, runFrom_bind, runFrom_countLength]
    by_cases hover : σ.ceilings.exceeded (s.counted text.length).counts
    · simp only [if_pos hover]
    · simp only [if_neg hover]
      rfl
  | _ => rfl

section

variable {σ : Settings} {s t : RenderState} {node : Node} {rest : List Node} {r : Rendered}
  {e : Failure}

/-- The line under which the failure of a node is recorded. -/
def lineOf (node : Node) : Option Int := node.line?.map Int.ofNat

/-- A node of a body that ends well was rendered and allowed, or it failed and is replaced by the text
of its failure. -/
theorem placed_eq_ok (hplaced : (placed node node.render).runFrom σ s = (.ok r, t)) :
    (∃ r' u, node.render.runFrom σ s = (.ok r', u) ∧ t = u.counted r'.text.length ∧
      r.text = (if node.isHidden then "" else r'.text) ∧ r.signal = r'.signal) ∨
    ∃ e u, node.render.runFrom σ s = (.error e, u) ∧ e.isFatal = false ∧
      t = u.record (errorAt σ e (lineOf node)) ∧
      r = { text := σ.errorStyle.render (errorAt σ e (lineOf node)) } := by
  rw [placed_eq_guarded, runFrom_guarded] at hplaced
  cases hrun : node.render.runFrom σ s with
  | mk outcome u =>
    rw [hrun] at hplaced
    cases outcome with
    | ok r' =>
      by_cases hover : σ.ceilings.exceeded (u.counted r'.text.length).counts
      · simp only [if_pos hover] at hplaced
        cases hplaced
      · simp only [if_neg hover] at hplaced
        cases hplaced
        refine .inl ⟨r', u, rfl, rfl, ?_⟩
        split <;> exact ⟨rfl, rfl⟩
    | error e =>
      cases hfatal : e.isFatal with
      | true =>
        simp only [hfatal, if_true] at hplaced
        cases hplaced
      | false =>
        cases hrethrow : σ.rethrow with
        | true =>
          simp only [hfatal, hrethrow, Bool.false_eq_true, if_false, if_true] at hplaced
          cases hplaced
        | false =>
          simp only [hfatal, hrethrow, Bool.false_eq_true, if_false] at hplaced
          cases hplaced
          exact .inr ⟨e, u, rfl, hfatal, rfl, rfl⟩

/-- With rethrow off, nothing but a fatal failure leaves the guard around a node. -/
theorem isFatal_of_placed (hrethrow : σ.rethrow = false)
    (hplaced : (placed node node.render).runFrom σ s = (.error e, t)) : e.isFatal = true := by
  rw [placed_eq_guarded, runFrom_guarded] at hplaced
  generalize node.render.runFrom σ s = out at hplaced
  match out with
  | (.ok r, u) =>
    by_cases hover : σ.ceilings.exceeded (u.counted r.text.length).counts
    · simp only [if_pos hover] at hplaced
      cases hplaced
      rfl
    · simp only [if_neg hover] at hplaced
      cases hplaced
  | (.error f, u) =>
    by_cases hfatal : f.isFatal
    · simp only [if_pos hfatal] at hplaced
      cases hplaced
      exact hfatal
    · simp only [if_neg hfatal, hrethrow, Bool.false_eq_true, if_false] at hplaced
      cases hplaced

end

/-- How a body ends when a text is put out before the rest of it. -/
def precededBy (text : String) (out : Outcome Rendered × RenderState) :
    Outcome Rendered × RenderState :=
  (out.1.map fun more => { more with text := text ++ more.text }, out.2)

/-- The nodes of a body are put out one after another, until one fails or gives a signal. -/
theorem runFrom_renderNodes_cons (node : Node) (rest : List Node) :
    (Node.renderNodes (node :: rest)).runFrom σ s =
      match (placed node node.render).runFrom σ s with
      | (.ok r, t) =>
        if r.signal.isSome then (.ok r, t)
        else precededBy r.text ((Node.renderNodes rest).runFrom σ t)
      | (.error e, t) => (.error e, t) := by
  rw [Node.renderNodes, runFrom_bind]
  generalize (placed node node.render).runFrom σ s = out
  match out with
  | (.error e, t) => rfl
  | (.ok r, t) =>
    dsimp only
    split
    · rfl
    · rw [runFrom_bind]
      generalize (Node.renderNodes rest).runFrom σ t = later
      match later with
      | (.ok more, u) => rfl
      | (.error e, u) => rfl

/-- What is known of a body that ended well: so did its first node, which either gave the signal the
body ended with, or was followed by the rest. -/
theorem renderNodes_cons_eq_ok {σ : Settings} {s t : RenderState} {node : Node} {rest : List Node}
    {r : Rendered} (hrun : (Node.renderNodes (node :: rest)).runFrom σ s = (.ok r, t)) :
    ∃ first u, (placed node node.render).runFrom σ s = (.ok first, u) ∧
      (first.signal.isSome = true ∧ r = first ∧ t = u ∨
        first.signal.isSome = false ∧ ∃ more, (Node.renderNodes rest).runFrom σ u = (.ok more, t) ∧
          r = { more with text := first.text ++ more.text }) := by
  rw [Node.renderNodes] at hrun
  obtain ⟨first, u, hplaced, hend⟩ := bind_eq_ok hrun
  refine ⟨first, u, hplaced, ?_⟩
  cases hsignal : first.signal.isSome with
  | true =>
    rw [hsignal, if_pos rfl] at hend
    cases hend
    exact .inl ⟨rfl, rfl, rfl⟩
  | false =>
    rw [hsignal, if_neg Bool.false_ne_true] at hend
    obtain ⟨more, v, hrest, hmore⟩ := bind_eq_ok hend
    cases hmore
    exact .inr ⟨rfl, more, hrest, rfl⟩

/-! ## Whole renders -/

/-- Only a fatal failure of the body is recovered from at the end. -/
theorem runFrom_renderWhole (body : Body) :
    body.renderWhole.runFrom σ s =
      match body.render.runFrom σ s with
      | (.ok r, t) => (.ok r.text, match r.signal with
        | some signal =>
          { t with notices := t.notices ++ [.ignoredInterrupt signal σ.templateName] }
        | none => t)
      | (.error e, t) => if e.isFatal then (handle e none).runFrom σ t else (.error e, t) := by
  simp only [Body.renderWhole, runFrom_tryCatch, runFrom_bind]
  generalize body.render.runFrom σ s = out
  match out with
  | (.ok ⟨text, none⟩, t) => rfl
  | (.ok ⟨text, some signal⟩, t) => rfl
  | (.error e, t) =>
    dsimp only
    split <;> rfl

section

variable {σ : Settings} {registers : Registers} {counts : Counts} {body : Body} {t : RenderState}

/-- Of the settings, a whole render adds to its body only what recording a failure looks at. -/
theorem run_congr {σ τ : Settings} (hrethrow : σ.rethrow = τ.rethrow)
    (hstyle : σ.errorStyle = τ.errorStyle) (hname : σ.templateName = τ.templateName)
    (hsame : body.render.runFrom σ { registers, counts } =
      body.render.runFrom τ { registers, counts }) :
    Environment.run σ counts registers body = Environment.run τ counts registers body := by
  have hwhole : body.renderWhole.runFrom σ { registers, counts } =
      body.renderWhole.runFrom τ { registers, counts } := by
    rw [runFrom_renderWhole, runFrom_renderWhole, hsame]
    generalize body.render.runFrom τ { registers, counts } = out
    match out with
    | (.ok r, t) =>
      dsimp only
      rw [hname]
    | (.error e, t) =>
      dsimp only
      simp only [runFrom_handle, rethrown, errorAt, hrethrow, hstyle, hname]
  exact congrArg (fun o => Finished.mk o.1 o.2) hwhole

/-- A body that ends well gives its text; a signal it ends with is only reported. -/
theorem run_of_ok {r : Rendered}
    (hbody : body.render.runFrom σ { registers, counts } = (.ok r, t)) :
    ∃ notices, Environment.run σ counts registers body =
      { result := .ok r.text, state := { t with notices } } := by
  have hwhole := runFrom_renderWhole σ { registers, counts } body
  rw [hbody] at hwhole
  change ∃ notices, Finished.mk (body.renderWhole.runFrom σ { registers, counts }).1
    (body.renderWhole.runFrom σ { registers, counts }).2 = _
  rw [hwhole]
  obtain ⟨text, signal⟩ := r
  cases signal with
  | none => exact ⟨t.notices, rfl⟩
  | some signal => exact ⟨_, rfl⟩

/-- A body that fails makes the whole render fail, unless the failure is fatal: this one is recorded, and
thrown on only with rethrow on. -/
theorem run_of_error {e : Failure}
    (hbody : body.render.runFrom σ { registers, counts } = (.error e, t)) :
    Environment.run σ counts registers body =
      if e.isFatal then
        { result := if σ.rethrow then .error (rethrown σ e none)
            else .ok (σ.errorStyle.render (errorAt σ e none))
          state := t.record (errorAt σ e none) }
      else { result := .error e, state := t } := by
  have hwhole := runFrom_renderWhole σ { registers, counts } body
  rw [hbody] at hwhole
  change Finished.mk (body.renderWhole.runFrom σ { registers, counts }).1
    (body.renderWhole.runFrom σ { registers, counts }).2 = _
  rw [hwhole]
  dsimp only
  split
  · rw [runFrom_handle]
  · rfl

/-- With rethrow off, a body that ends with a fatal failure leaves nothing but its text. -/
theorem run_of_fatal (hrethrow : σ.rethrow = false) {e : Failure} (hfatal : e.isFatal = true)
    (hbody : body.render.runFrom σ { registers, counts } = (.error e, t)) :
    Environment.run σ counts registers body =
      { result := .ok (σ.errorStyle.render (errorAt σ e none))
        state := t.record (errorAt σ e none) } := by
  rw [run_of_error hbody, if_pos hfatal, hrethrow]
  rfl

end

theorem start_of_ofEntries (env : Environment) (options : RenderOptions) {limits : Limits}
    (hlimits : Limits.ofEntries (options.limits.getD env.limits) = .ok limits)
    (data : Option Scope) (registers : Registers) (t : Template) :
    env.start options data registers t = .ok (Environment.run
      (env.settings options limits t.name data (env.subrenderWithin Environment.maxSubrenders))
      limits.counts registers t.body) := by
  unfold Environment.start
  rw [hlimits]
  rfl

theorem start_of_refused (env : Environment) (options : RenderOptions) {e : Failure}
    (hlimits : Limits.ofEntries (options.limits.getD env.limits) = .error e)
    (data : Option Scope) (registers : Registers) (t : Template) :
    env.start options data registers t = .error e := by
  unfold Environment.start
  rw [hlimits]
  rfl

theorem start_eq_ok {env : Environment} {options : RenderOptions} {data : Option Scope}
    {registers : Registers} {t : Template} {finished : Finished}
    (hstart : env.start options data registers t = .ok finished) :
    ∃ limits, Limits.ofEntries (options.limits.getD env.limits) = .ok limits ∧
      finished = Environment.run
        (env.settings options limits t.name data (env.subrenderWithin Environment.maxSubrenders))
        limits.counts registers t.body := by
  unfold Environment.start at hstart
  cases hlimits : Limits.ofEntries (options.limits.getD env.limits) with
  | error e =>
    rw [hlimits] at hstart
    cases hstart
  | ok limits =>
    rw [hlimits] at hstart
    cases hstart
    exact ⟨limits, rfl, rfl⟩

end Render

end Stencil
