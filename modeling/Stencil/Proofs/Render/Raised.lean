import Stencil.Proofs.Render.FailedNodes
import Stencil.Proofs.Render.Iterated
import Stencil.Proofs.Render.Rethrow

/-!
# Failures that nodes raise, and the errors they record

A node of a body may fail by itself, and so may any node inside it. The failures raised in a body are listed
here in the order in which they come about; the list is put together in the way the render is, from the states
of the render itself (`Node.raises`, `Body.raises`).

When failures are put out, each of them is recorded once, by the guard of the node that raised it. When they
are thrown on, every guard on the way out records it again.

* `Raise.recorded`: the errors that are recorded for a raised failure.
* `Accounts`: a step records what its raised failures do, and nothing else; when failures are thrown on, it
  raises at most one, and ends with it.
* `accounts_body`: so does every body. `raises_of_body`: whatever leaves a body was raised, unless it is fatal.
-/

namespace Stencil

open Render

/-! ## Raised failures -/

/-- A failure that a node of a body raises, and the nodes around it. Nodes are given by their lines. -/
inductive Raise where
  /-- The node fails by itself. -/
  | here (failure : Failure) (line : Option Int)
  /-- A node inside it does. -/
  | inside (inner : Raise) (line : Option Int)

namespace Raise

/-- What the failing node fails with. -/
def failure : Raise → Failure
  | here failure _ => failure
  | inside inner _ => inner.failure

/-- How many nodes are around the failing one. -/
def depth : Raise → Nat
  | here .. => 0
  | inside inner _ => inner.depth + 1

/-- The error that the guard of the failing node records. -/
def first (σ : Settings) : Raise → TemplateError
  | here failure line => errorAt σ failure line
  | inside inner _ => inner.first σ

/-- What leaves the outermost of the nodes, when failures are thrown on. -/
def thrown (σ : Settings) : Raise → Failure
  | here failure line => rethrown σ failure line
  | inside inner line => rethrown σ (inner.thrown σ) line

/-- The errors that the guards around record when the failure is thrown on through them, one after the
other. -/
def again (σ : Settings) : Raise → List TemplateError
  | here .. => []
  | inside inner line => inner.again σ ++ [errorAt σ (inner.thrown σ) line]

/-- All errors that are recorded for the failure. -/
def recorded (σ : Settings) (r : Raise) : List TemplateError :=
  r.first σ :: if σ.rethrow then r.again σ else []

variable {σ : Settings}

/-- What is put out is recorded once, at whatever depth. -/
theorem flatMap_recorded_of_inline (hrethrow : σ.rethrow = false) (raised : List Raise) :
    raised.flatMap (·.recorded σ) = raised.map (·.first σ) := by
  simp only [recorded, hrethrow, Bool.false_eq_true, if_false, List.map_eq_flatMap]

theorem recorded_of_rethrow (hrethrow : σ.rethrow = true) (r : Raise) :
    r.recorded σ = r.first σ :: r.again σ := by
  rw [recorded, if_pos hrethrow]

theorem recorded_here (failure : Failure) (line : Option Int) :
    (here failure line).recorded σ = [errorAt σ failure line] := by
  rw [recorded, again, ite_self, first]

/-- What is thrown on is recorded again for each node around it. -/
theorem length_again (r : Raise) : (r.again σ).length = r.depth := by
  induction r with
  | here failure line => rfl
  | inside inner line ih => rw [again, List.length_append, ih, List.length_singleton, depth]

/-- What leaves the nodes is the failure behind the last record. -/
theorem thrown_eq_failure (r : Raise) : r.thrown σ = ((r.again σ).getLastD (r.first σ)).failure := by
  cases r with
  | here failure line => exact rethrown_eq_failure σ failure line
  | inside inner line =>
    rw [again, List.getLastD_concat]
    exact rethrown_eq_failure σ (inner.thrown σ) line

/-- Recording a failure that was thrown on changes at most the line it is recorded under. -/
theorem errorAt_rethrown (failure : Failure) (line outer : Option Int) :
    ∃ known, errorAt σ (rethrown σ failure line) outer = errorAt σ failure known := by
  cases failure with
  | template e =>
    refine ⟨line.or outer, ?_⟩
    simp only [rethrown, errorAt, Failure.recorded, TemplateError.locate, Option.or_assoc, Option.or_self]
  | host h => exact ⟨outer, rfl⟩

theorem exists_thrown_eq (r : Raise) : ∃ line, r.thrown σ = rethrown σ r.failure line := by
  induction r with
  | here failure line => exact ⟨line, rfl⟩
  | inside inner line ih =>
    obtain ⟨before, hbefore⟩ := ih
    obtain ⟨known, hknown⟩ := errorAt_rethrown (σ := σ) inner.failure before line
    refine ⟨known, ?_⟩
    rw [thrown, failure, hbefore, rethrown_eq_failure, hknown, rethrown_eq_failure]

/-- What is recorded again is the failure that was raised. -/
theorem eq_errorAt_of_mem_again {r : Raise} {e : TemplateError} (he : e ∈ r.again σ) :
    ∃ line, e = errorAt σ r.failure line := by
  induction r with
  | here failure line => cases he
  | inside inner line ih =>
    rcases List.mem_append.mp he with hinner | hagain
    · exact ih hinner
    · obtain ⟨before, hbefore⟩ := inner.exists_thrown_eq (σ := σ)
      rw [List.mem_singleton.mp hagain, hbefore, failure]
      exact errorAt_rethrown inner.failure before line

theorem isFatal_thrown (r : Raise) : (r.thrown σ).isFatal = r.failure.isFatal := by
  obtain ⟨line, hthrown⟩ := r.exists_thrown_eq (σ := σ)
  rw [hthrown]
  cases r.failure <;> rfl

end Raise

/-! ## What is raised by a step -/

/-- The failures raised by a step, which depend on the state it starts from. -/
abbrev Raises := RenderState → List Raise

namespace Raises

variable {α : Type}

/-- Nothing is raised. -/
def nothing : Raises := fun _ => []

/-- What goes on with the value that a step gives, if it gives one. -/
def after (σ : Settings) (x : Render α) (later : α → Raises) : Raises := fun s =>
  match x.runFrom σ s with
  | (.ok a, t) => later a t
  | (.error _, _) => []

/-- The failures of a step, and behind them those of what goes on with its value. -/
def andThen (σ : Settings) (x : Render α) (first : Raises) (later : α → Raises) : Raises := fun s =>
  first s ++ after σ x later s

/-- The failures inside a new innermost scope, if it can be entered. -/
def inScope (scope : Scope) (raises : Raises) : Raises := fun s =>
  if maxScopes < s.scopes.length then [] else raises (s.within scope)

/-- The failures of a body of a number of nodes. -/
def scored (size : Nat) (raises : Raises) : Raises := fun s => raises (s.scored size)

/-- The failures of a node of a body: those inside it, and its own. A fatal failure ends the whole render and
is not the node's; nor is a failure that was raised inside the node and is thrown on through it. -/
def guarded (σ : Settings) (line : Option Int) (x : Render Rendered) (inner : Raises) : Raises := fun s =>
  (inner s).map (.inside · line) ++ match (x.runFrom σ s).1 with
    | .ok _ => []
    | .error e => if e.isFatal || (σ.rethrow && !(inner s).isEmpty) then [] else [.here e line]

/-- The failures of the items of a loop. -/
def items (σ : Settings) (id : Nat) (itemName : String) (body : Render Rendered) (raises : Raises) :
    List Value → Raises
  | [] => nothing
  | item :: rest =>
    let scope := itemScope id itemName item
    andThen σ (withScope scope body) (inScope scope raises) fun r =>
      after σ (advanceLoop id) fun _ =>
        if r.signal == some .leave then nothing else items σ id itemName body raises rest

/-- The failures of the cells of a table. -/
def cells (σ : Settings) (id : Nat) (itemName : String) (body : Render Rendered) (raises : Raises) :
    List Value → Raises
  | [] => nothing
  | item :: rest =>
    after σ (setLocal itemName item) fun _ => after σ Render.loops fun loops =>
      match loops[id]? with
      | none => nothing
      | some _ =>
        andThen σ body raises fun r => after σ (advanceLoop id) fun _ =>
          if r.signal == some .leave then nothing else cells σ id itemName body raises rest

/-- The failures of a body behind alternatives. -/
def alternatives (σ : Settings) (subject : Expr) (body : Render Rendered) (raises : Raises) :
    List Expr → Raises
  | [] => nothing
  | value :: rest =>
    after σ (Comparison.holds { left := subject, operator := some "==", right := value }) fun holds =>
      if holds then
        andThen σ body raises fun r =>
          if r.signal.isSome then nothing else alternatives σ subject body raises rest
      else alternatives σ subject body raises rest

/-- The failures of a body that is rendered a number of times. -/
def turns (σ : Settings) (body : Render Rendered) (raises : Raises) : Nat → Raises
  | 0 => nothing
  | n + 1 => andThen σ body raises fun _ => turns σ body raises n

end Raises

namespace Node

mutual

/-- The failures raised by the nodes inside a node. -/
def raises (σ : Settings) (node : Node) : Raises :=
  match node with
  | .text _ | .output _ | .assign .. | .interrupt .. | .cycle .. | .raw .. | .leaf .. => .nothing
  | .choose _ negated branches => .inScope [] (branchesRaises σ branches negated)
  | .case _ subject _ clauses => .inScope [] (clausesRaises σ clauses subject false)
  | .loop _ header body otherwise =>
    .after σ header.itemsOf fun items =>
      if items.isEmpty then
        match otherwise with
        | some nodes => .inScope [] (.scored nodes.length (nodesRaises σ nodes))
        | none => .nothing
      else fun s =>
        Raises.items σ s.loops.size header.itemName (Body.render body)
          (.scored body.length (nodesRaises σ body)) items (startItems header items s)
  | .table _ header body =>
    .after σ header.opened fun
      | some (id, items) =>
        .inScope [("tablerowloop", .loop id)]
          (.cells σ id header.itemName (Body.render body) (.scored body.length (nodesRaises σ body)) items)
      | none => .nothing
  | .block _ kind body =>
    let inner : Raises := .scored body.length (nodesRaises σ body)
    match kind with
    | .capture _ | .wrap => inner
    | .changed => .inScope [] inner
    | .comment => .nothing
    | .repeated n => .turns σ (Body.render body) inner n
termination_by structural node

/-- The failures of nodes one after another, until a signal stops them. -/
def nodesRaises (σ : Settings) (nodes : List Node) : Raises :=
  match nodes with
  | [] => .nothing
  | node :: rest =>
    .andThen σ (placed node node.render) (.guarded σ (lineOf node) node.render (raises σ node)) fun r =>
      if r.signal.isSome then .nothing else nodesRaises σ rest
termination_by structural nodes

/-- The failures of the first body whose condition holds. -/
def branchesRaises (σ : Settings) (branches : List (Option Condition × List Node)) (negated : Bool) :
    Raises :=
  match branches with
  | [] => .nothing
  | (guard, body) :: rest =>
    .after σ (guardHolds guard) fun holds =>
      if holds != negated then .scored body.length (nodesRaises σ body)
      else branchesRaises σ rest false
termination_by structural branches

/-- The failures of the bodies one of whose alternatives equals a subject. -/
def clausesRaises (σ : Settings) (clauses : List (Option (List Expr) × List Node)) (subject : Expr)
    (matched : Bool) : Raises :=
  match clauses with
  | [] => .nothing
  | (some values, body) :: rest =>
    .andThen σ (renderAlternatives subject (Body.render body) matched values)
      (.alternatives σ subject (Body.render body) (.scored body.length (nodesRaises σ body)) values)
      fun (r, matched) => if r.signal.isSome then .nothing else clausesRaises σ rest subject matched
  | (none, body) :: rest =>
    if matched then clausesRaises σ rest subject true
    else .scored body.length (nodesRaises σ body)
termination_by structural clauses

end

end Node

/-- The failures raised by the nodes of a body, at whatever depth. -/
def Body.raises (σ : Settings) (body : Body) : Raises := .scored body.length (Node.nodesRaises σ body)

namespace Render

variable {α β : Type} {σ : Settings} {s t : RenderState} {raises : Raises} {x : Render α}

/-! ## Steps that account for what they record -/

/-- From `s`, the failures raised by a step that ends in this way record all errors that are recorded. When
failures are thrown on, there is at most one, and the step ends with it. -/
structure AccountsFor (σ : Settings) (s : RenderState) (raised : List Raise)
    (out : Outcome α × RenderState) : Prop where
  errors : out.2.errors = s.errors ++ raised.flatMap (·.recorded σ)
  thrown : σ.rethrow = true → raised = [] ∨
    ∃ r, raised = [r] ∧ r.failure.isFatal = false ∧ out.1 = .error (r.thrown σ)

/-- Neither the value matters, nor what is no error in the states. -/
theorem AccountsFor.map {s' u : RenderState} {out : Outcome α × RenderState} {raised : List Raise}
    (hout : AccountsFor σ s' raised out) (f : α → β) (hstart : s'.errors = s.errors)
    (hend : u.errors = out.2.errors) : AccountsFor σ s raised (out.1.map f, u) := by
  refine ⟨hend.trans (hstart ▸ hout.errors), fun hrethrow => ?_⟩
  rcases hout.thrown hrethrow with hnone | ⟨r, hone, hfatal, hends⟩
  · exact .inl hnone
  · exact .inr ⟨r, hone, hfatal, congrArg (Except.map f) hends⟩

/-- From every state, the step records what its raised failures do. -/
def Accounts (σ : Settings) (x : Render α) (raises : Raises) : Prop :=
  ∀ s, AccountsFor σ s (raises s) (x.runFrom σ s)

theorem AccountsFor.of_kept {out : Outcome α × RenderState} (hkept : out.2.errors = s.errors) :
    AccountsFor σ s [] out where
  errors := by rw [hkept, List.flatMap_nil, List.append_nil]
  thrown _ := .inl rfl

/-- A step that records no error raises none. -/
theorem accounts_of_kept (hx : ∀ s, (x.runFrom σ s).2.errors = s.errors) : Accounts σ x .nothing :=
  fun s => .of_kept (hx s)

theorem accounts_pure (a : α) : Accounts σ (pure a : Render α) .nothing := accounts_of_kept fun _ => rfl

/-- A sequence raises what its first step does, and behind it what goes on with the value of that. -/
theorem Accounts.bind {f : α → Render β} {later : α → Raises} (hx : Accounts σ x raises)
    (hf : ∀ a, Accounts σ (f a) (later a)) : Accounts σ (x >>= f) (.andThen σ x raises later) := by
  intro s
  obtain ⟨herrors, hthrown⟩ := hx s
  rw [runFrom_bind, Raises.andThen, Raises.after]
  generalize x.runFrom σ s = out at herrors hthrown
  obtain ⟨outcome, t⟩ := out
  dsimp only at herrors hthrown
  cases outcome with
  | error e =>
    rw [List.append_nil]
    refine ⟨herrors, fun hrethrow => ?_⟩
    rcases hthrown hrethrow with hnone | ⟨r, hone, hfatal, hends⟩
    · exact .inl hnone
    · cases hends
      exact .inr ⟨r, hone, hfatal, rfl⟩
  | ok a =>
    refine ⟨?_, fun hrethrow => ?_⟩
    · rw [(hf a t).errors, herrors, List.flatMap_append, List.append_assoc]
    · -- what is thrown would have ended the sequence
      rcases hthrown hrethrow with hnone | ⟨r, hone, hfatal, hends⟩
      · rw [hnone, List.nil_append]
        exact (hf a t).thrown hrethrow
      · cases hends

/-- What a step that records no error goes on with. -/
theorem Accounts.after {f : α → Render β} {later : α → Raises}
    (hx : ∀ s, (x.runFrom σ s).2.errors = s.errors) (hf : ∀ a, Accounts σ (f a) (later a)) :
    Accounts σ (x >>= f) (.after σ x later) :=
  (accounts_of_kept hx).bind hf

/-- What is done with the value of a step raises nothing, if it records no error. -/
theorem Accounts.andKept {f : α → Render β} (hx : Accounts σ x raises)
    (hf : ∀ a s, ((f a).runFrom σ s).2.errors = s.errors) : Accounts σ (x >>= f) raises := by
  have hbind := hx.bind fun a => accounts_of_kept (hf a)
  have hnothing : Raises.andThen σ x raises (fun _ => .nothing) = raises := by
    funext s
    unfold Raises.andThen Raises.after Raises.nothing
    split <;> exact List.append_nil _
  rwa [hnothing] at hbind

theorem Accounts.map (hx : Accounts σ x raises) (f : α → β) : Accounts σ (do return f (← x)) raises :=
  hx.andKept fun _ _ => rfl

theorem Accounts.withScope (hx : Accounts σ x raises) (scope : Scope) :
    Accounts σ (withScope scope x) (.inScope scope raises) := by
  intro s
  rw [runFrom_withScope, Raises.inScope]
  split
  · exact .of_kept rfl
  · obtain ⟨herrors, hthrown⟩ := hx (s.within scope)
    exact ⟨herrors, hthrown⟩

theorem Accounts.scored {x : Render Rendered} (hx : Accounts σ x raises) (size : Nat) :
    Accounts σ (Render.scored size x) (.scored size raises) := by
  intro s
  rw [runFrom_scored]
  obtain ⟨herrors, hthrown⟩ := hx (s.scored size)
  exact ⟨herrors, hthrown⟩

/-! ## Guards -/

/-- A failure that was put out inside a node is not recorded again around it. -/
theorem flatMap_recorded_inside {raised : List Raise} (hput : σ.rethrow = true → raised = [])
    (line : Option Int) :
    (raised.map (Raise.inside · line)).flatMap (·.recorded σ) = raised.flatMap (·.recorded σ) := by
  cases hrethrow : σ.rethrow with
  | true => rw [hput hrethrow, List.map_nil]
  | false =>
    rw [Raise.flatMap_recorded_of_inline hrethrow, Raise.flatMap_recorded_of_inline hrethrow, List.map_map]
    rfl

/-- **The guard of a node records the failure of the node once**, and every failure that is thrown on through
the node once more. -/
theorem Accounts.guarded {x : Render Rendered} (hx : Accounts σ x raises) (blank : Bool)
    (line : Option Nat) :
    Accounts σ (Render.guarded blank line x) (.guarded σ (line.map Int.ofNat) x raises) := by
  intro s
  obtain ⟨herrors, hthrown⟩ := hx s
  rw [runFrom_guarded, Raises.guarded]
  generalize raises s = raised at herrors hthrown
  generalize x.runFrom σ s = out at herrors hthrown
  obtain ⟨outcome, t⟩ := out
  dsimp only at herrors hthrown
  by_cases hput : σ.rethrow = true → raised = []
  · -- nothing goes through the guard, so that the failure of the node is its own
    have hown : (σ.rethrow && !raised.isEmpty) = false := by
      cases hrethrow : σ.rethrow with
      | false => rfl
      | true => rw [hput hrethrow]; rfl
    have hinside := flatMap_recorded_inside hput (line.map Int.ofNat)
    cases outcome with
    | ok r =>
      rw [List.append_nil]
      exact ⟨by rw [hinside]; exact herrors, fun hrethrow => .inl (by rw [hput hrethrow, List.map_nil])⟩
    | error e =>
      simp only [hown, Bool.or_false]
      cases hfatal : e.isFatal with
      | true =>
        rw [if_pos rfl, if_pos rfl, List.append_nil]
        exact ⟨by rw [hinside]; exact herrors, fun hrethrow => .inl (by rw [hput hrethrow, List.map_nil])⟩
      | false =>
        rw [if_neg Bool.false_ne_true, if_neg Bool.false_ne_true]
        refine ⟨?_, fun hrethrow => .inr ⟨.here e (line.map Int.ofNat), ?_, hfatal, if_pos hrethrow⟩⟩
        · change t.errors ++ _ = _
          rw [herrors, List.flatMap_append, hinside, List.flatMap_singleton, Raise.recorded_here,
            List.append_assoc]
        · rw [hput hrethrow, List.map_nil, List.nil_append]
  · -- the one failure that was raised inside is what the node fails with
    obtain ⟨hrethrow, hsome⟩ := Classical.not_imp.mp hput
    rcases hthrown hrethrow with hnone | ⟨r, rfl, hfatal, hends⟩
    · exact absurd hnone hsome
    · cases hends
      have hnotFatal : (r.thrown σ).isFatal = false := r.isFatal_thrown.trans hfatal
      simp only [hnotFatal, hrethrow, List.isEmpty_cons, Bool.not_false, Bool.and_self, Bool.or_true, if_true,
        List.append_nil, Bool.false_eq_true, if_false]
      refine ⟨?_, fun _ => .inr ⟨.inside r (line.map Int.ofNat), rfl, hfatal, rfl⟩⟩
      change t.errors ++ _ = _
      rw [herrors, List.map_singleton, List.flatMap_singleton, List.flatMap_singleton,
        Raise.recorded_of_rethrow hrethrow, Raise.recorded_of_rethrow hrethrow, List.append_assoc]
      rfl

/-- Every failure that leaves the guard was raised, unless it is fatal. -/
theorem raises_of_guarded {x : Render Rendered} {blank : Bool} {line : Option Nat} {e : Failure}
    (hrun : (Render.guarded blank line x).runFrom σ s = (.error e, t)) (hfatal : e.isFatal = false) :
    Raises.guarded σ (line.map Int.ofNat) x raises s ≠ [] := by
  rw [runFrom_guarded] at hrun
  rw [Raises.guarded]
  generalize x.runFrom σ s = out at hrun
  obtain ⟨outcome, u⟩ := out
  cases outcome with
  | ok r =>
    -- nothing but an exceeded ceiling stops a node that ends well
    dsimp only at hrun
    split at hrun
    · cases hrun
      cases hfatal
    · cases hrun
  | error f =>
    dsimp only at hrun ⊢
    cases hfatal' : f.isFatal with
    | true =>
      rw [hfatal', if_pos rfl] at hrun
      cases hrun
      cases hfatal.symm.trans hfatal'
    | false =>
      cases hinner : raises s with
      | nil => simp
      | cons r rest => simp

/-! ## Loops -/

theorem accountRelation_quiet : AccountRelation fun _ s t => t.errors = s.errors where
  same _ _ herrors := herrors
  trans hst htu := htu.trans hst
  score _ _ _ := rfl
  assigned _ _ _ := rfl

/-- Besides rendering its bodies, no node records anything. -/
theorem ownClosed_quiet : OwnClosed Quiet where
  toEvaluates := evaluates_quiet
  assign _ _ := accountRelation_quiet.keeps_modifyScopes _
  countAssigned _ _ _ := rfl
  registers _ _ := rfl
  openStore _ _ := rfl
  visit _ _ _ := rfl
  noteShown _ _ _ := rfl
  addLoop _ _ _ := rfl
  cycle _ _ := accountRelation_quiet.renderClosed.toStateClosed.cycle
    accountRelation_quiet.registerClosed.registers (evaluates_quiet.evaluate _)
    fun _ _ => evaluates_quiet.evaluate _

theorem sequenceClosed_quiet : SequenceClosed Quiet where
  pure := evaluates_quiet.pure
  bind := evaluates_quiet.bind
  countScore _ _ _ := rfl

variable {body : Render Rendered} {id : Nat} {itemName : String}

theorem accounts_renderItems (hbody : Accounts σ body raises) (items : List Value) :
    Accounts σ (renderItems id itemName body items) (.items σ id itemName body raises items) := by
  induction items with
  | nil => exact accounts_pure _
  | cons item rest ih =>
    unfold renderItems Raises.items
    refine (hbody.withScope _).bind fun r => .after (fun _ => rfl) fun _ => ?_
    split
    · exact accounts_pure _
    · exact ih.map _

theorem accounts_renderCells (hbody : Accounts σ body raises) (items : List Value) :
    Accounts σ (renderCells id itemName body items) (.cells σ id itemName body raises items) := by
  induction items with
  | nil => exact accounts_pure _
  | cons item rest ih =>
    unfold renderCells Raises.cells
    have hset : Quiet Unit (setLocal itemName item) := accountRelation_quiet.keeps_modifyScopes _
    refine .after (hset σ) fun _ => .after (fun _ => rfl) fun loops => ?_
    cases loops[id]? with
    | none => exact accounts_pure _
    | some info =>
      refine hbody.bind fun r => .after (fun _ => rfl) fun _ => ?_
      split
      · exact accounts_pure _
      · exact ih.map _

/-! ## Choices and repetitions -/

theorem quiet_guardHolds (guard : Option Condition) : Quiet Bool (guardHolds guard) := by
  cases guard with
  | none => exact fun _ _ => rfl
  | some c => exact evaluates_quiet.condition c

theorem accounts_renderAlternatives (subject : Expr) (hbody : Accounts σ body raises) (matched : Bool)
    (values : List Expr) :
    Accounts σ (renderAlternatives subject body matched values)
      (.alternatives σ subject body raises values) := by
  induction values generalizing matched with
  | nil => exact accounts_pure _
  | cons value rest ih =>
    unfold renderAlternatives Raises.alternatives
    refine .after (evaluates_quiet.comparison _ σ) fun holds => ?_
    cases holds with
    | false => exact ih matched
    | true =>
      refine hbody.bind fun r => ?_
      split
      · exact accounts_pure _
      · exact (ih true).map _

theorem accounts_renderRepeatedly (hbody : Accounts σ body raises) (turns : Nat) :
    Accounts σ (renderRepeatedly body turns) (.turns σ body raises turns) := by
  induction turns with
  | zero => exact accounts_pure _
  | succ turns ih => exact hbody.bind fun _ => ih.map _

theorem accounts_renderBranches {branches : List (Option Condition × Body)}
    (hbodies : ∀ branch ∈ branches, Accounts σ (Body.render branch.2) (Body.raises σ branch.2))
    (negated : Bool) :
    Accounts σ (Node.renderBranches branches negated) (Node.branchesRaises σ branches negated) := by
  induction branches generalizing negated with
  | nil =>
    unfold Node.renderBranches Node.branchesRaises
    exact accounts_pure _
  | cons branch rest ih =>
    obtain ⟨guard, body⟩ := branch
    obtain ⟨hbody, hrest⟩ := List.forall_mem_cons.mp hbodies
    have hsteps : Node.renderBranches ((guard, body) :: rest) negated = (do
        let holds ← guardHolds guard
        if holds != negated then Body.render body else Node.renderBranches rest false) := by
      cases guard <;> rw [Node.renderBranches] <;> rfl
    rw [hsteps]
    unfold Node.branchesRaises
    refine .after (quiet_guardHolds guard σ) fun holds => ?_
    split
    · exact hbody
    · exact ih hrest false

theorem accounts_renderClauses {clauses : List (Option (List Expr) × Body)} (subject : Expr)
    (hbodies : ∀ clause ∈ clauses, Accounts σ (Body.render clause.2) (Body.raises σ clause.2))
    (matched : Bool) :
    Accounts σ (Node.renderClauses clauses subject matched)
      (Node.clausesRaises σ clauses subject matched) := by
  induction clauses generalizing matched with
  | nil =>
    unfold Node.renderClauses Node.clausesRaises
    exact accounts_pure _
  | cons clause rest ih =>
    obtain ⟨guard, body⟩ := clause
    obtain ⟨hbody, hrest⟩ := List.forall_mem_cons.mp hbodies
    unfold Node.renderClauses Node.clausesRaises
    cases guard with
    | none =>
      cases matched with
      | true => exact ih hrest true
      | false => exact hbody
    | some values =>
      refine (accounts_renderAlternatives subject hbody matched values).bind fun found => ?_
      dsimp only
      split
      · exact accounts_pure _
      · exact (ih hrest _).map _

/-! ## Nodes and bodies -/

theorem accounts_renderNodes {nodes : List Node}
    (hnodes : ∀ node ∈ nodes, Accounts σ node.render (node.raises σ)) :
    Accounts σ (Node.renderNodes nodes) (Node.nodesRaises σ nodes) := by
  induction nodes with
  | nil =>
    unfold Node.renderNodes Node.nodesRaises
    exact accounts_pure _
  | cons node rest ih =>
    obtain ⟨hnode, hrest⟩ := List.forall_mem_cons.mp hnodes
    unfold Node.renderNodes Node.nodesRaises
    rw [placed_eq_guarded]
    refine (hnode.guarded node.isHidden node.line?).bind fun r => ?_
    split
    · exact accounts_pure _
    · exact (ih hrest).map _

theorem raises_of_renderNodes {nodes : List Node} {e : Failure}
    (hrun : (Node.renderNodes nodes).runFrom σ s = (.error e, t)) (hfatal : e.isFatal = false) :
    Node.nodesRaises σ nodes s ≠ [] := by
  induction nodes generalizing s with
  | nil =>
    rw [Node.renderNodes] at hrun
    cases hrun
  | cons node rest ih =>
    unfold Node.renderNodes at hrun
    unfold Node.nodesRaises
    rw [placed_eq_guarded] at hrun ⊢
    rw [Raises.andThen]
    rcases bind_eq_error hrun with hfails | ⟨r, u, hfirst, hthen⟩
    · exact List.append_ne_nil_of_left_ne_nil (raises_of_guarded hfails hfatal) _
    · refine List.append_ne_nil_of_right_ne_nil _ ?_
      rw [Raises.after, hfirst]
      dsimp only
      split at hthen
      · cases hthen
      · next hsignal =>
        rw [if_neg hsignal]
        exact ih (error_of_bind_pure hthen)

/-- A loop renders its items, or what stands behind its else. -/
theorem accounts_loop {header : LoopHeader} {body : Body} {otherwise : Option Body} (tag : Tag)
    (hbody : Accounts σ body.render (body.raises σ))
    (hother : ∀ other ∈ otherwise, Accounts σ (Body.render other) (Body.raises σ other)) :
    Accounts σ (Node.loop tag header body otherwise).render
      ((Node.loop tag header body otherwise).raises σ) := by
  rw [render_loop]
  unfold LoopHeader.render Node.raises
  refine .after (ownClosed_quiet.itemsOf header σ) fun items => ?_
  by_cases hempty : items.isEmpty
  · rw [if_pos hempty, if_pos hempty]
    cases otherwise with
    | none => exact accounts_pure _
    | some other => exact (hother other rfl).withScope []
  · rw [if_neg hempty, if_neg hempty]
    intro s
    rw [runFrom_startItems]
    exact (accounts_renderItems hbody items (startItems header items s)).map _ rfl rfl

theorem accounts_table {header : TableHeader} {body : Body} (tag : Tag)
    (hbody : Accounts σ body.render (body.raises σ)) :
    Accounts σ (Node.table tag header body).render ((Node.table tag header body).raises σ) := by
  rw [render_table, TableHeader.render_eq]
  unfold Node.raises
  refine .after (ownClosed_quiet.opened header σ) fun opened => ?_
  cases opened with
  | none => exact accounts_pure _
  | some pair => exact Accounts.map ((accounts_renderCells hbody _).withScope _) _

theorem accounts_block {tag : Tag} {kind : BlockKind} {body : Body}
    (hbody : kind ≠ .comment → Accounts σ body.render (body.raises σ)) :
    Accounts σ (Node.block tag kind body).render ((Node.block tag kind body).raises σ) := by
  rw [render_block]
  unfold Node.raises
  have hown := ownClosed_quiet.own (.block tag kind body)
  cases kind with
  | capture target =>
    refine (hbody nofun).andKept fun r s => ?_
    exact ownClosed_quiet.bind (hown r.text) (fun _ => ownClosed_quiet.pure _) σ s
  | changed =>
    refine ((hbody nofun).withScope []).andKept fun r s => ?_
    rw [runFrom_bind, runFrom_registers]
    dsimp only
    split <;> rfl
  | comment => exact accounts_pure _
  | repeated turns => exact (accounts_renderRepeatedly (hbody nofun) turns).map _
  | wrap => exact hbody nofun

/-- **A node accounts for what it records**, if its bodies do. One case for each kind of node. -/
theorem accounts_node {node : Node}
    (hbodies : ∀ body ∈ node.rendered, Accounts σ body.render (body.raises σ)) :
    Accounts σ node.render (node.raises σ) := by
  cases node with
  | choose tag negated branches =>
    unfold Node.render Node.raises
    exact (accounts_renderBranches (fun branch hbranch =>
      hbodies _ (List.mem_map_of_mem hbranch)) negated).withScope []
  | case tag subject preamble clauses =>
    unfold Node.render Node.raises
    exact (accounts_renderClauses subject (fun clause hclause =>
      hbodies _ (List.mem_map_of_mem hclause)) false).withScope []
  | loop tag header body otherwise =>
    refine accounts_loop tag (hbodies _ List.mem_cons_self) fun other hother => ?_
    exact hbodies _ (List.mem_cons_of_mem _ (Option.mem_toList.mpr hother))
  | table tag header body => exact accounts_table tag (hbodies _ List.mem_cons_self)
  | block tag kind body =>
    refine accounts_block fun hkind => hbodies body ?_
    cases kind with
    | comment => exact absurd rfl hkind
    | _ => exact List.mem_cons_self
  | text | output | assign | interrupt | cycle | raw | leaf =>
    unfold Node.raises
    exact accounts_of_kept (sequenceClosed_quiet.leaf (ownClosed_quiet.own _) rfl σ)

/-- **A body accounts for what it records.** Induction on the tree. -/
theorem accounts_body (σ : Settings) (body : Body) : Accounts σ body.render (body.raises σ) := by
  induction body using Body.induction with
  | step body ih =>
    refine (accounts_renderNodes fun node hnode => accounts_node fun inner hinner => ?_).scored _
    exact ih node hnode inner (Node.mem_bodies_of_mem_rendered hinner)

/-- **Every failure that leaves a body was raised by one of its nodes**, unless it is fatal. -/
theorem raises_of_body {body : Body} {e : Failure} (hrun : body.render.runFrom σ s = (.error e, t))
    (hfatal : e.isFatal = false) : body.raises σ s ≠ [] := by
  rw [Body.render, runFrom_scored] at hrun
  exact raises_of_renderNodes hrun hfatal

end Render

end Stencil
