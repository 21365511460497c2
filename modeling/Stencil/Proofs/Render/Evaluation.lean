import Stencil.Filter.Invoke
import Stencil.Proofs.Expr.Subexpressions
import Stencil.Proofs.Render.Supplies
import Stencil.Proofs.Value.Members
import Stencil.Proofs.Value.Refusals

/-!
# Properties that every evaluation has

Expressions, conditions, filters and pipelines are evaluated by steps that look at the settings and
the state, bind host objects, ask them for keys, and report notices. A property of steps that holds of
these leaves and that composition keeps therefore holds of every evaluation:

* `StepClosed P`: the leaves, but for looking variables up, the questions to host objects, and the failures
  that the host raises; what these leaves refuse by themselves are arguments (`Failure.IsRefusal`);
* `EvaluationClosed P`: also looking variables up, wherever they are found, and whatever the host raises;
* `Evaluates P`: on top of them, the two evaluations that ask host objects, by a path and by a filter;
* `AskingClosed.evaluates`: a property of all questions is one of these evaluations;
* `Evaluates.condition`, `Evaluates.pipeline`, `Evaluates.output`: what is built from them.

What a value is looked up in and made from may decide what can be done with it. Steps of paths and the
built-in filters therefore supply values that satisfy a property `V`, when the values they start from do
(`StepClosed.suppliesStep`, `StepClosed.suppliesBuiltin`). Lookups do as well, if `V` passes from host objects
to what they give, and failing as they do is a step with the property (`HostValues`).

What tags remember in the registers is hidden from evaluations, and so is what was counted. The four
places where an evaluation asks whether it is strict are leaves of their own, so that a property may
compare a strict run with one that is not. The failure of a filter is given its name, and what it is given
to is known to record no error.

A reflexive and transitive relation of the states before and after a step, however the step ends, is
such a property when binding host objects and reporting notices keep it (`EvaluationRelation.closed`).
-/

namespace Stencil

/-- The settings without the data and without those that only decide how a render is cut off: ceilings,
strictness, and whether failures are thrown on. -/
def Settings.core (σ : Settings) : Settings :=
  { σ with
    environments := []
    ceilings := {}
    strictVariables := false
    strictFilters := false
    rethrow := false }

/-- The state without what tags remember from one render to the next. -/
def RenderState.core (s : RenderState) : RenderState :=
  { s with registers := { loopStack := s.registers.loopStack } }

/-- The state without what was counted and checked. -/
def RenderState.unmetered (s : RenderState) : RenderState := { s with counts := {}, checks := [] }

namespace Render

variable {α β : Type} {R : Settings → RenderState → RenderState → Prop}

/-- A step that only looks at the settings and the state. -/
def inspect (look : Settings → RenderState → Outcome α) : Render α :=
  fun σ => ExceptT.mk fun s => (look σ.core s.core.unmetered, s)

/-- Leads from every state to one that the relation allows, however the step ends. -/
def Keeps (R : Settings → RenderState → RenderState → Prop) (α : Type) (step : Render α) : Prop :=
  ∀ σ s, R σ s (step.runFrom σ s).2

theorem Keeps.of_run {x : Render α} (hx : Keeps R α x) {σ : Settings} {s t : RenderState} {o : Outcome α}
    (hrun : x.runFrom σ s = (o, t)) : R σ s t := by
  have hkept := hx σ s
  rwa [hrun] at hkept

/-- Records no error, however the step ends. -/
def Quiet : (α : Type) → Render α → Prop := Keeps fun _ s t => t.errors = s.errors

/-- A property of steps that the leaves of evaluations have, but for looking variables up and the
questions to host objects, and that composition keeps. -/
structure StepClosed (P : (α : Type) → Render α → Prop) : Prop where
  inspect {α : Type} (look : Settings → RenderState → Outcome α)
    (hlook : ∀ σ s, FailsOnly Failure.IsRefusal (look σ s)) : P α (inspect look)
  bind {α β : Type} {x : Render α} {f : α → Render β} :
    P α x → (∀ a, P β (f a)) → P β (x >>= f)
  blame {α : Type} {x : Render α} (name : String) : Quiet α x → P α x →
    P α (tryCatch x fun e => throw (Filter.blame name e))
  bindHost (v : Value) : P Value (Render.bind v)
  notify (notices : List Notice) :
    P Unit (modify fun s => { s with notices := s.notices ++ notices })
  undefined (name : Value) : P Value (Render.undefined name)
  missing (bound : Bool) (key : Value) : P Value (Render.missing bound key)
  lost (key : Value) : P Value (Render.lost key)
  unregistered (name : String) (v : Value) : P Value (Filter.unregistered name v)

/-- Such a property of looking variables up as well, and of failing in whatever way. -/
structure EvaluationClosed (P : (α : Type) → Render α → Prop) : Prop extends StepClosed P where
  layers : P (List Scope) Render.layers
  raise {α : Type} (e : Failure) : P α (throw e)

/-- Such a property of the questions to host objects as well. -/
structure AskingClosed (P : (α : Type) → Render α → Prop) : Prop extends EvaluationClosed P where
  ask (route : Route) (object key : Value) : P Unit (Render.ask route object key)

/-- Such a property of the two evaluations that put questions to host objects. -/
structure Evaluates (P : (α : Type) → Render α → Prop) : Prop extends EvaluationClosed P where
  evaluate (e : Expr) : P Value e.evaluate
  property (key item : Value) : P Value (BuiltinFilter.property key item)

/-! ## Relations that evaluations keep -/

/-- A relation of the states before and after an evaluation. -/
structure EvaluationRelation (R : Settings → RenderState → RenderState → Prop) : Prop where
  refl (σ : Settings) (s : RenderState) : R σ s s
  trans {σ : Settings} {s t u : RenderState} : R σ s t → R σ t u → R σ s u
  bound (σ : Settings) (s : RenderState) (v : Value) : R σ s (s.binding v)
  notices (σ : Settings) (s : RenderState) (notices : List Notice) : R σ s { s with notices }

namespace EvaluationRelation

variable (hR : EvaluationRelation R)

include hR

theorem keeps_of_eq {x : Render α} (hx : ∀ σ s, (x.runFrom σ s).2 = s) : Keeps R α x := by
  intro σ s
  rw [hx]
  exact hR.refl σ s

theorem keeps_bind {x : Render α} {f : α → Render β} (hx : Keeps R α x)
    (hf : ∀ a, Keeps R β (f a)) : Keeps R β (x >>= f) := by
  intro σ s
  have hstep := hx σ s
  rw [runFrom_bind]
  generalize x.runFrom σ s = r at hstep
  match r with
  | (.ok a, t) => exact hR.trans hstep (hf a σ t)
  | (.error e, t) => exact hstep

theorem keeps_tryCatch {x : Render α} {f : Failure → Render α} (hx : Keeps R α x)
    (hf : ∀ e, Keeps R α (f e)) : Keeps R α (tryCatch x f) := by
  intro σ s
  have hstep := hx σ s
  rw [runFrom_tryCatch]
  generalize x.runFrom σ s = r at hstep
  match r with
  | (.ok a, t) => exact hstep
  | (.error e, t) => exact hR.trans hstep (hf e σ t)

theorem keeps_bindHost (v : Value) : Keeps R Value (Render.bind v) := by
  intro σ s
  rw [runFrom_bindHost]
  exact hR.bound σ s v

/-- **Every evaluation keeps the relation**, but for the questions to host objects. -/
theorem closed : EvaluationClosed (Keeps R) where
  inspect _ _ := hR.keeps_of_eq fun _ _ => rfl
  bind := hR.keeps_bind
  blame name _ hx := hR.keeps_tryCatch hx fun e => hR.keeps_of_eq fun _ _ => rfl
  bindHost := hR.keeps_bindHost
  notify notices σ s := hR.notices σ s _
  undefined name := hR.keeps_of_eq fun σ s => by rw [runFrom_undefined]
  missing bound key := hR.keeps_of_eq fun σ s => by rw [runFrom_missing]
  lost key := hR.keeps_of_eq fun σ s => by rw [runFrom_lost]
  unregistered name v := hR.keeps_of_eq fun σ s => by rw [runFrom_unregistered]
  layers := hR.keeps_of_eq fun _ _ => rfl
  raise _ := hR.keeps_of_eq fun _ _ => rfl

/-- A relation that does not look at the questions is kept by them as well. -/
theorem asking (hasked : ∀ σ s asks, R σ s { s with asks }) : AskingClosed (Keeps R) where
  toEvaluationClosed := hR.closed
  ask _ _ _ σ s := hasked σ s _

end EvaluationRelation

namespace StepClosed

variable {P : (α : Type) → Render α → Prop} (h : StepClosed P)

include h

/-! ## Looking at the settings and the state -/

theorem pure (a : α) : P α (Pure.pure a) := h.inspect (fun _ _ => .ok a) fun _ _ => failsOnly_ok a

theorem throw {e : Failure} (he : e.IsRefusal) : P α (MonadExcept.throw e) :=
  h.inspect (fun _ _ => .error e) fun _ _ => failsOnly_error he

theorem ofOutcome {o : Outcome α} (ho : FailsOnly Failure.IsRefusal o) : P α (Render.ofOutcome o) := by
  cases o with
  | ok a => exact h.pure a
  | error e => exact h.throw (ho e rfl)

theorem loops : P Loops Render.loops := h.inspect (fun _ s => .ok s.loops) fun _ _ => failsOnly_ok _

/-- A step that goes on with what evaluations may look at in the settings. -/
theorem reads {f : Settings → Render α} (hcore : ∀ σ, f σ.core = f σ) (hf : ∀ σ, P α (f σ)) :
    P α (read >>= f) := by
  -- `f` makes no use of the settings that `inspect` hides
  have hlook : read >>= f = Render.inspect (fun σ _ => .ok σ) >>= f := by
    funext σ
    change f σ σ = f σ.core σ
    rw [hcore]
  rw [hlook]
  exact h.bind (h.inspect _ fun _ _ => failsOnly_ok _) hf

/-- A step that goes on with what evaluations may look at in the state. -/
theorem looks {f : RenderState → Render α} (hcore : ∀ s, f s.core.unmetered = f s)
    (hf : ∀ s, P α (f s)) :
    P α (get >>= f) := by
  -- `f` makes no use of what `inspect` hides of the state
  have hlook : get >>= f = Render.inspect (fun _ s => .ok s) >>= f := by
    funext σ
    funext s
    change f s σ s = f s.core.unmetered σ s
    rw [hcore]
  rw [hlook]
  exact h.bind (h.inspect _ fun _ _ => failsOnly_ok _) hf

/-! ## Values that steps supply -/

section

variable {V : Value → Prop} {values : α → List Value} {x : Render α} {v : Value}

/-- A step that has the property gives something, whatever values are in it. -/
theorem supplies (hx : P α x) : Supplies P V (fun _ => []) x :=
  ⟨fun hf => h.bind hx fun a => hf a fun _ hv => nomatch hv⟩

/-- Nothing has to be known of the values in what a step gives. -/
theorem suppliesAny (hx : P α x) : Supplies P (fun _ => True) values x :=
  ⟨fun hf => h.bind hx fun a => hf a fun _ _ => trivial⟩

theorem suppliesThrow {e : Failure} (he : e.IsRefusal) : Supplies P V values (MonadExcept.throw e) :=
  ⟨fun _ => h.throw he⟩

theorem suppliesOutcome {o : Outcome α} (hfails : FailsOnly Failure.IsRefusal o)
    (ho : ∀ a, o = .ok a → ∀ v ∈ values a, V v) : Supplies P V values (Render.ofOutcome o) := by
  cases o with
  | ok a => exact .pure (ho a rfl)
  | error e => exact h.suppliesThrow (hfails e rfl)

/-- A step that goes on with what evaluations may look at in the settings. -/
theorem suppliesReads {f : Settings → Render α} (hcore : ∀ σ, f σ.core = f σ)
    (hf : ∀ σ, Supplies P V values (f σ)) : Supplies P V values (read >>= f) := by
  refine ⟨fun hg => ?_⟩
  rw [bind_assoc]
  exact h.reads (fun σ => by rw [hcore]) fun σ => (hf σ).goOn hg

/-- A step that goes on with what evaluations may look at in the state. -/
theorem suppliesLooks {f : RenderState → Render α} (hcore : ∀ s, f s.core.unmetered = f s)
    (hf : ∀ s, Supplies P V values (f s)) : Supplies P V values (get >>= f) := by
  refine ⟨fun hg => ?_⟩
  rw [bind_assoc]
  exact h.looks (fun s => by rw [hcore]) fun s => (hf s).goOn hg

/-- A step that has the property and gives the same whenever it ends well. -/
theorem suppliesGiven {a : α} (hx : P α x) (hgives : ∀ σ s b t, x.runFrom σ s = (.ok b, t) → b = a)
    (ha : ∀ v ∈ values a, V v) : Supplies P V values x := by
  rw [eq_bind_pure hgives]
  exact (h.supplies hx).bind fun _ _ => .pure ha

theorem suppliesBound (hv : V v) : Supplies P V only (Render.bind v) := by
  refine h.suppliesGiven (h.bindHost v) (fun σ s w t hrun => ?_) (List.forall_mem_singleton.mpr hv)
  rw [runFrom_bindHost] at hrun
  exact (Except.ok.inj (Prod.mk.inj hrun).1).symm

theorem suppliesUndefined (hV : ValueClosed V) (name : Value) :
    Supplies P V only (Render.undefined name) :=
  h.suppliesGiven (h.undefined name) (fun _ _ _ _ => undefined_eq_ok)
    (List.forall_mem_singleton.mpr hV.nil)

theorem suppliesMissing (hV : ValueClosed V) (bound : Bool) (key : Value) :
    Supplies P V only (Render.missing bound key) :=
  h.suppliesGiven (h.missing bound key) (fun _ _ _ _ => missing_eq_ok)
    (List.forall_mem_singleton.mpr hV.nil)

theorem suppliesLost (hV : ValueClosed V) (key : Value) : Supplies P V only (Render.lost key) :=
  h.suppliesGiven (h.lost key) (fun _ _ _ _ => lost_eq_ok) (List.forall_mem_singleton.mpr hV.nil)

theorem suppliesUnregistered (name : String) (hv : V v) :
    Supplies P V only (Filter.unregistered name v) :=
  h.suppliesGiven (h.unregistered name v) (fun _ _ _ _ => unregistered_eq_ok)
    (List.forall_mem_singleton.mpr hv)

end

theorem mapM {f : α → Render β} (hf : ∀ a, P β (f a)) (xs : List α) : P (List β) (xs.mapM f) :=
  (Supplies.mapM (V := fun _ => True) fun a _ => h.supplies (hf a)).run h.pure

theorem exposes (v : Value) (name : String) : P Bool (Render.exposes v name) := by
  unfold Render.exposes
  split
  · exact h.pure _
  · exact h.bind h.loops fun _ => h.pure _
  · exact h.pure _

end StepClosed

/-- A property of values that the operations on values keep, and that holds of what is looked up in them. -/
structure HostClosed (P : (α : Type) → Render α → Prop) (V : Value → Prop) : Prop
    extends ValueClosed V where
  unwrap {v : Value} (hv : V v) : V (Render.unwrap v)
  settle {v : Value} (hv : V v) : Supplies P V only (Render.settle Render.find v)
  resolve {v : Value} (hv : V v) (key : Value) : Supplies P V only (Render.resolve v key)

/-- A property of values that passes from host objects to what is inside them, where failing as they do has
the property `P`. -/
structure HostValues (P : (α : Type) → Render α → Prop) (V : Value → Prop) : Prop
    extends ValueClosed V where
  proxied {id : Nat} {v : Value} : V (.proxy id v) → V v
  result {id : Nat} {v : Value} : V (.function id (.constant v)) → V v
  failing {id : Nat} {e : Failure} : V (.function id (.failing e)) → ∀ α, P α (throw e)
  method {id : Nat} {d : Drop Value} {name : String} {v : Value} :
    V (.drop id d) → (name, .method v) ∈ d.members → V v
  property {id : Nat} {d : Drop Value} {name : String} {v : Value} :
    V (.drop id d) → (name, .property v) ∈ d.members → V v
  member {id : Nat} {d : Drop Value} {name : String} {e : Failure} :
    V (.drop id d) → (name, .failing e) ∈ d.members → ∀ α, P α (throw e)

/-- The values that scopes bind. -/
def boundValues (scopes : List Scope) : List Value := scopes.flatMap fun scope => scope.map (·.2)

theorem mem_boundValues_of_findSome {scopes : List Scope} {name : String} {v : Value}
    (hfind : scopes.findSome? (·.get? name) = some v) : v ∈ boundValues scopes := by
  obtain ⟨scope, hscope, hget⟩ := List.exists_of_findSome?_eq_some hfind
  obtain ⟨entry, hentry, rfl⟩ := Option.map_eq_some_iff.mp hget
  exact List.mem_flatMap.mpr ⟨scope, hscope, List.mem_map_of_mem (List.mem_of_find?_eq_some hentry)⟩

/-- What all values in the scopes satisfy is kept when such a value is bound in the innermost scope. -/
theorem forall_putInnermost {V : Value → Prop} {scopes : List Scope}
    (hscopes : ∀ scope ∈ scopes, ∀ entry ∈ scope, V entry.2) {name : String} {v : Value} (hv : V v) :
    ∀ scope ∈ putInnermost name v scopes, ∀ entry ∈ scope, V entry.2 := by
  cases scopes with
  | nil => exact hscopes
  | cons scope rest =>
    obtain ⟨hscope, hrest⟩ := List.forall_mem_cons.mp hscopes
    exact List.forall_mem_cons.mpr ⟨Named.forall_put hscope hv, hrest⟩

/-- So it is when the value is bound in the outermost one. -/
theorem forall_putOutermost {V : Value → Prop} {scopes : List Scope}
    (hscopes : ∀ scope ∈ scopes, ∀ entry ∈ scope, V entry.2) {name : String} {v : Value} (hv : V v) :
    ∀ scope ∈ putOutermost name v scopes, ∀ entry ∈ scope, V entry.2 := by
  induction scopes with
  | nil => exact hscopes
  | cons scope rest ih =>
    obtain ⟨hscope, hrest⟩ := List.forall_mem_cons.mp hscopes
    cases rest with
    | nil => exact List.forall_mem_singleton.mpr (Named.forall_put hscope hv)
    | cons next rest => exact List.forall_mem_cons.mpr ⟨hscope, ih hrest⟩

namespace StepClosed

variable {P : (α : Type) → Render α → Prop} (h : StepClosed P) {V : Value → Prop} {v : Value}

include h

/-! ## Lookups -/

section

variable (hV : HostValues P V)

include hV

omit h in
theorem unwrapped (hv : V v) : V (Render.unwrap v) := by
  unfold Render.unwrap
  split
  · exact hV.proxied hv
  · exact hv

theorem suppliesCalled {find : String → Render Value} (hfind : ∀ name, Supplies P V only (find name))
    {id : Nat} {f : HostFunction Value} (hf : V (.function id f)) :
    Supplies P V only (Render.call find f) := by
  unfold Render.call
  split
  · exact .pureOne (hV.result hf)
  · exact hfind _
  · exact h.suppliesLooks (fun _ => rfl) fun _ => .pureOne (hV.int _)
  · exact ⟨fun _ => hV.failing hf _⟩

theorem suppliesSettled {find : String → Render Value} (hfind : ∀ name, Supplies P V only (find name))
    (hv : V v) : Supplies P V only (Render.settle find v) := by
  unfold Render.settle
  split
  · exact (h.suppliesCalled hV hfind hv).bindOne fun _ hw => h.suppliesBound (unwrapped hV hw)
  · exact h.suppliesBound (unwrapped hV hv)

variable (hlayers : Supplies P V boundValues Render.layers)

include hlayers

theorem suppliesFindWithin (fuel : Nat) (name : String) :
    Supplies P V only (Render.findWithin fuel name) := by
  -- a function that asks for another variable uses fuel up
  induction fuel generalizing name with
  | zero => exact h.suppliesThrow (Failure.isRefusal_host _)
  | succ fuel ih =>
    unfold Render.findWithin
    refine hlayers.bind fun scopes hscopes => ?_
    split
    · next v hfind => exact h.suppliesSettled hV ih (hscopes v (mem_boundValues_of_findSome hfind))
    · exact h.suppliesUndefined hV.toValueClosed _

theorem suppliesFind (name : String) : Supplies P V only (Render.find name) :=
  hlayers.bind fun _ _ => h.suppliesFindWithin hV hlayers _ name

theorem suppliesFindNamed (name : Value) : Supplies P V only (Render.findNamed name) := by
  unfold Render.findNamed
  split
  · exact h.suppliesFind hV hlayers _
  · refine hlayers.bind fun _ _ => ?_
    split
    · exact h.suppliesThrow (Failure.isRefusal_host _)
    · exact h.suppliesUndefined hV.toValueClosed _

theorem suppliesMember {id : Nat} {d : Drop Value} {name : String} {m : Member Value} (hd : V (.drop id d))
    (hm : (name, m) ∈ d.members) : Supplies P V only (Render.member id m) := by
  unfold Render.member
  split
  · exact .pureOne (hV.method hd hm)
  · exact .pureOne (hV.result (hV.property hd hm))
  · exact ⟨fun _ => hV.failing (hV.property hd hm) _⟩
  · exact h.suppliesThrow (Failure.isRefusal_host _)
  · exact .pureOne (hV.property hd hm)
  · refine h.suppliesLooks (fun _ => rfl) fun _ => ?_
    split
    · exact h.suppliesFind hV hlayers _
    · exact .pureOne hV.nil
  · exact ⟨fun _ => hV.member hd hm _⟩

omit hlayers in
theorem suppliesMissingOf (id : Nat) (d : Drop Value) (key : Value) :
    Supplies P V only (Render.missingOf id d key) := by
  unfold Render.missingOf
  split
  · exact (h.supplies h.loops).bind fun _ _ =>
      (h.supplies (h.ofOutcome (Value.failsOnly_written _ _).isHost.isRefusal)).bind fun _ _ =>
      .pureOne (hV.str _)
  · exact h.suppliesLooks (fun _ => rfl) fun _ => h.suppliesMissing hV.toValueClosed _ _

theorem suppliesResolve (hv : V v) (key : Value) : Supplies P V only (Render.resolve v key) := by
  unfold Render.resolve
  split
  · split
    · exact h.suppliesMissingOf hV _ _ _
    · split
      · next m hm =>
        obtain ⟨⟨name, m⟩, hfind, rfl⟩ := Option.map_eq_some_iff.mp hm
        exact h.suppliesMember hV hlayers hv (List.mem_of_find?_eq_some hfind)
      · exact h.suppliesThrow (Failure.isRefusal_host _)
  · exact h.suppliesMissingOf hV _ _ _
  · refine (h.supplies h.loops).bind fun loops _ => ?_
    dsimp only
    split
    · next answer hanswer =>
      refine .pureOne ?_
      split at hanswer
      · exact hV.answer hanswer
      · cases hanswer
    · exact h.suppliesLooks (fun _ => rfl) fun _ => h.suppliesMissing hV.toValueClosed _ _
  · exact .pureOne hV.nil

theorem hostClosed : HostClosed P V where
  toValueClosed := hV.toValueClosed
  unwrap := unwrapped hV
  settle := h.suppliesSettled hV (h.suppliesFind hV hlayers)
  resolve := h.suppliesResolve hV hlayers

end

end StepClosed

/-! ## Properties of items -/

section

variable {P : (α : Type) → Render α → Prop} {V : Value → Prop} {items : List Value}

/-- The properties of items are values. -/
theorem suppliesProperties {key : Value}
    (hproperty : ∀ item ∈ items, Supplies P V only (BuiltinFilter.property key item)) :
    Supplies P V id (items.mapM (BuiltinFilter.property key)) := by
  have hmapped := Supplies.mapM hproperty
  rwa [show (fun vs : List Value => vs.flatMap only) = id from funext List.flatMap_singleton']
    at hmapped

/-- Items stay what they are when they are given keys to be sorted by. -/
theorem suppliesKeyed {key : Value} (hitems : ∀ item ∈ items, V item)
    (hproperty : ∀ item ∈ items, Supplies P V only (BuiltinFilter.property key item)) :
    Supplies P V (fun ks => ks.map (·.item)) (BuiltinFilter.keyed key items) := by
  unfold BuiltinFilter.keyed
  split
  · refine .pure fun v hv => ?_
    rw [List.map_map] at hv
    obtain ⟨item, hitem, rfl⟩ := List.mem_map.mp hv
    exact hitems item hitem
  · have hkeyed : ∀ item ∈ items, Supplies P V (fun k : Value.Keyed => [k.item])
        (do return ⟨← BuiltinFilter.property key item, item⟩) := fun item hitem =>
      (hproperty item hitem).bindOne fun _ _ =>
        .pure (List.forall_mem_singleton.mpr (hitems item hitem))
    simpa only [List.map_eq_flatMap] using Supplies.mapM hkeyed

end

/-! ## Pipelines -/

section

variable {P : (α : Type) → Render α → Prop} {V : Value → Prop} {v : Value}
  (hinvoke : ∀ name v args kwargs, V v → (∀ a ∈ args, V a) → (∀ entry ∈ kwargs, V entry.2) →
  Supplies P V only (Filter.invoke name v args kwargs))

include hinvoke

theorem suppliesCall (call : FilterCall) (hexprs : ∀ e ∈ call.exprs, Supplies P V only e.evaluate)
    (hv : V v) : Supplies P V only (call.apply v) := by
  obtain ⟨hargs, hkwargs⟩ := List.forall_mem_append.mp hexprs
  have hnamed : ∀ entry ∈ call.kwargs, Supplies P V (fun bound : String × Value => [bound.2])
      (do return (entry.1, ← entry.2.evaluate)) := fun entry hentry =>
    (hkwargs _ (List.mem_map_of_mem hentry)).bindOne fun _ hw =>
      .pure (List.forall_mem_singleton.mpr hw)
  unfold FilterCall.apply
  refine (Supplies.mapM hargs).bind fun args hargs => (Supplies.mapM hnamed).bind fun kwargs hkwargs =>
    hinvoke _ _ _ _ hv ?_ fun entry hentry => ?_
  · exact fun a ha => hargs a (List.mem_flatMap.mpr ⟨a, ha, List.mem_cons_self⟩)
  · rcases Named.mem_putAll hentry with hold | hgiven
    · cases hold
    · exact hkwargs _ (List.mem_flatMap.mpr ⟨entry, hgiven, List.mem_cons_self⟩)

theorem suppliesPipeline (p : Pipeline) (hexprs : ∀ e ∈ p.exprs, Supplies P V only e.evaluate) :
    Supplies P V only p.evaluate := by
  obtain ⟨hexpr, hfilters⟩ := List.forall_mem_cons.mp hexprs
  unfold Pipeline.evaluate
  refine hexpr.bind fun v hv => Supplies.foldlM (fun w call hcall hw => ?_) hv
  exact suppliesCall hinvoke call
    (fun e he => hfilters e (List.mem_flatMap.mpr ⟨call, hcall, he⟩)) (hw w List.mem_cons_self)

end

theorem forall_firstOf {V : Value → Prop} (hV : ValueClosed V) {v : Value} (hv : V v) :
    ∀ w ∈ firstOf? v, V w := by
  intro w hw
  unfold firstOf? at hw
  split at hw
  · exact Option.some.inj hw ▸ hV.headD (hV.items hv)
  · exact Option.some.inj hw ▸ hV.headD (hV.items hv)
  · rw [← Option.some.inj hw]
    split
    · exact hV.nil
    · exact hV.int _
  · cases hw

theorem forall_lastOf {V : Value → Prop} (hV : ValueClosed V) {v : Value} (hv : V v) :
    ∀ w ∈ lastOf? v, V w := by
  intro w hw
  unfold lastOf? at hw
  split at hw
  · exact Option.some.inj hw ▸ hV.getLastD (hV.items hv)
  · exact Option.some.inj hw ▸ hV.getLastD (hV.items hv)
  · rw [← Option.some.inj hw]
    split
    · exact hV.nil
    · exact hV.int _
  · cases hw

namespace StepClosed

variable {P : (α : Type) → Render α → Prop} (h : StepClosed P)
  {V : Value → Prop} {v : Value}

include h

theorem suppliesItem (hV : ValueClosed V) (hv : V v) (place : Nat) :
    Supplies P V only (Render.itemAt v place) := by
  unfold Render.itemAt
  split
  · exact .pureOne (hV.getD (hV.items hv) _)
  · exact .pureOne (hV.getD (hV.items hv) _)
  · split
    · next length hlength =>
      refine (h.supplies (h.ofOutcome (Value.failsOnly_length hlength).isRefusal)).bind fun _ _ => ?_
      split
      · exact .pureOne (hV.int _)
      · exact .pureOne hV.nil
    · exact .pureOne hV.nil
  · exact .pureOne hV.nil

theorem suppliesKey (hV : HostClosed P V) (hv : V v) (key : Value)
    (hask : P Unit (Render.ask .path v key)) :
    Supplies P V Option.toList (Render.key? v key) := by
  -- lists, tuples and ranges are all asked for an item by its place
  have hitem (n : Int) : Supplies P V Option.toList
      (if 0 ≤ n then do return some (← Render.itemAt v n.toNat) else return none) := by
    split
    · exact (h.suppliesItem hV.toValueClosed hv _).bindOne fun _ hw => .pureSome hw
    · exact .pureNone
  unfold Render.key?
  split
  · refine (h.supplies hask).bind fun _ _ => ?_
    split
    · exact (hV.resolve hv key).bindOne fun _ hw => .pureSome hw
    · exact .pureNone
  · exact (h.supplies hask).bind fun _ _ => (hV.resolve hv key).bindOne fun _ hw => .pureSome hw
  · split
    · next found hentry =>
      obtain ⟨e, he, rfl⟩ := Value.mem_of_entry hentry
      exact (hV.settle (hV.entries hv e he).2).bindOne fun _ hw => .pureSome hw
    · exact .pureNone
  iterate 3
    · split
      · exact hitem _
      · exact .pureNone
  · exact .pureNone

theorem suppliesCommand (hV : HostClosed P V) (hv : V v) (name : String)
    (hask : P Unit (Render.ask .path v (.str name))) :
    Supplies P V Option.toList (Render.command? v name) := by
  unfold Render.command?
  refine (h.supplies hask).bind fun _ _ => (h.supplies (h.exposes v name)).bind fun _ _ => ?_
  split
  · exact (hV.resolve hv _).bindOne fun _ hw => .pureSome hw
  · split
    · split
      · next length hlength =>
        exact (h.supplies (h.ofOutcome (Value.failsOnly_length hlength).isRefusal)).bind fun _ _ =>
          .pureSome (hV.int _)
      · exact .pureNone
    · exact .pure fun _ hw => forall_firstOf hV.toValueClosed hv _ (Option.mem_toList.mp hw)
    · exact .pure fun _ hw => forall_lastOf hV.toValueClosed hv _ (Option.mem_toList.mp hw)
    · exact .pureNone

/-- A step of a path puts questions to the value it starts from only. -/
theorem suppliesStep (hV : HostClosed P V) (hv : V v) (key : Value) (command : Option String)
    (hask : ∀ key, P Unit (Render.ask .path v key)) :
    Supplies P V Option.toList (Render.step? v key command) := by
  have hbound {w : Value} (hw : V w) : Supplies P V Option.toList
      (do return some (← Render.bind (Render.unwrap w))) :=
    (h.suppliesBound (hV.unwrap hw)).bindOne fun _ hw => .pureSome hw
  unfold Render.step?
  refine (h.suppliesKey hV hv key (hask _)).bind fun found hfound => ?_
  split
  · exact hbound (hfound _ (Option.mem_toList.mpr rfl))
  · exact .pureNone
  · refine (h.suppliesCommand hV hv _ (hask _)).bind fun found hfound => ?_
    split
    · exact hbound (hfound _ (Option.mem_toList.mpr rfl))
    · exact .pureNone

/-- A filter puts its question to the item. -/
theorem suppliesProperty (hV : HostClosed P V) (hv : V v) (key : Value)
    (hask : P Unit (Render.ask .item v key)) :
    Supplies P V only (BuiltinFilter.property key v) := by
  unfold BuiltinFilter.property
  split
  · exact (h.supplies hask).bind fun _ _ => hV.resolve hv key
  · exact (h.supplies hask).bind fun _ _ => hV.resolve hv key
  · next es =>
    have hfound : Supplies P V Option.toList (Render.ofOutcome (Value.entry? es key)) := by
      refine h.suppliesOutcome (Value.failsOnly_entry _ _).isHost.isRefusal fun found hentry w hw => ?_
      rw [Option.mem_toList] at hw
      obtain ⟨e, he, rfl⟩ := Value.mem_of_entry (hentry.trans (congrArg Except.ok hw))
      exact (hV.entries hv e he).2
    refine hfound.bind fun found hw => .pureOne ?_
    cases found with
    | none => exact hV.nil
    | some w => exact hw w List.mem_cons_self
  · exact .pureOne hV.nil

/-! ## Expressions -/

/-- What is needed of an expression inside another one: a literal satisfies `V`, and what a path starts
from can be looked up. -/
def Usable (P : (α : Type) → Render α → Prop) (V : Value → Prop) : Expr → Prop
  | .value v => V v
  | .lookup (.value name) _ => Supplies P V only (Render.findNamed name)
  | .lookup _ _ => ∀ name, V name → Supplies P V only (Render.findNamed name)
  | .range _ _ => True

section

variable (hV : HostClosed P V)

include hV

mutual

/-- Induction on the expression, together with the paths inside it. -/
theorem suppliesEvaluate (hask : ∀ v, V v → ∀ key, P Unit (Render.ask .path v key)) (e : Expr)
    (he : ∀ e' ∈ e.subs, Usable P V e') : Supplies P V only e.evaluate :=
  match e with
  | .value v => by
    unfold Expr.evaluate
    exact .pureOne (he _ (Expr.self_mem_subs _))
  | .lookup root path => by
    obtain ⟨hself, hinner⟩ := List.forall_mem_cons.mp he
    obtain ⟨hroot, hpath⟩ := List.forall_mem_append.mp hinner
    have hfound : Supplies P V only (do Render.findNamed (← root.evaluate)) := by
      cases root with
      | value name =>
        rw [Expr.evaluate, pure_bind]
        exact hself
      | lookup => exact (suppliesEvaluate hask _ hroot).bindOne hself
      | range => exact (suppliesEvaluate hask _ hroot).bindOne hself
    unfold Expr.evaluate
    rw [← bind_assoc]
    exact hfound.bindOne fun v hv => suppliesFollow hask path v hpath hv
  | .range first last => by
    obtain ⟨-, hinner⟩ := List.forall_mem_cons.mp he
    obtain ⟨hfirst, hlast⟩ := List.forall_mem_append.mp hinner
    unfold Expr.evaluate
    exact (suppliesEvaluate hask first hfirst).bind fun _ _ => (h.supplies h.loops).bind fun _ _ =>
      (h.supplies (h.ofOutcome (Value.failsOnly_toRangeEnd _ _))).bind fun _ _ =>
      (suppliesEvaluate hask last hlast).bind fun _ _ => (h.supplies h.loops).bind fun _ _ =>
      (h.supplies (h.ofOutcome (Value.failsOnly_toRangeEnd _ _))).bind fun _ _ => .pureOne (hV.range _)

theorem suppliesFollow (hask : ∀ v, V v → ∀ key, P Unit (Render.ask .path v key)) (path : List Step)
    (v : Value) (hpath : ∀ e ∈ Expr.pathSubs path, Usable P V e) (hv : V v) :
    Supplies P V only (Expr.follow path v) :=
  match path with
  | [] => by
    unfold Expr.follow
    exact .pureOne hv
  | .name s :: rest => by
    unfold Expr.follow
    refine (h.suppliesStep hV hv _ _ (hask v hv)).bind fun next hnext => ?_
    split
    · exact suppliesFollow hask rest _ hpath (hnext _ (Option.mem_toList.mpr rfl))
    · exact h.suppliesLost hV.toValueClosed _
  | .index e :: rest => by
    obtain ⟨hkey, hrest⟩ := List.forall_mem_append.mp hpath
    unfold Expr.follow
    refine (suppliesEvaluate hask e hkey).bind fun key _ =>
      (h.suppliesStep hV hv _ _ (hask v hv)).bind fun next hnext => ?_
    split
    · exact suppliesFollow hask rest _ hrest (hnext _ (Option.mem_toList.mpr rfl))
    · exact h.suppliesLost hV.toValueClosed _

end

end

/-- An expression supplies values when its literals satisfy `V`, and so does everything that names are looked up
in. -/
theorem suppliesLiterals (hV : HostValues P V) (hlayers : Supplies P V boundValues Render.layers)
    (hask : ∀ v key, P Unit (Render.ask .path v key)) {e : Expr} (he : e.Literals V) :
    Supplies P V only e.evaluate := by
  have hfound := h.suppliesFindNamed hV hlayers
  refine h.suppliesEvaluate (h.hostClosed hV hlayers) (fun v _ => hask v) e fun e' he' => ?_
  cases e' with
  | value v => exact he v he'
  | lookup root path =>
    cases root with
    | value name => exact hfound name
    | lookup | range => exact fun name _ => hfound name
  | range => trivial

/-! ## Filters -/

theorem charsOf (v : Value) : P (List Char) (BuiltinFilter.charsOf v) :=
  h.bind h.loops fun _ => h.bind (h.ofOutcome (Value.failsOnly_output _ _).isHost.isRefusal) fun _ => h.pure _

theorem numberOf (v : Value) : P Numeric (BuiltinFilter.numberOf v) :=
  h.bind h.loops fun _ => h.ofOutcome (Value.failsOnly_toNumber _ _).isHost.isRefusal

theorem intOf (v : Value) : P Int (BuiltinFilter.intOf v) :=
  h.bind h.loops fun _ => h.ofOutcome (Value.failsOnly_toInt _ _).isRefusal

section

variable (hV : ValueClosed V)

include hV

/-- A filter that makes a text. -/
theorem suppliesText {step : Render α} (hstep : P α step) (f : α → List Char) :
    Supplies P V only (do return BuiltinFilter.ofChars (f (← step))) :=
  (h.supplies hstep).bind fun _ _ => .pureOne (hV.str _)

theorem suppliesNumbers {f : Numeric → Numeric → Outcome Numeric}
    (hf : ∀ a b, FailsOnly Failure.IsRefusal (f a b)) (v w : Value) :
    Supplies P V only (BuiltinFilter.onNumbers f v w) :=
  (h.supplies (h.numberOf v)).bind fun _ _ => (h.supplies (h.numberOf w)).bind fun _ _ =>
    (h.supplies (h.ofOutcome (hf _ _))).bind fun _ _ => .pureOne (hV.number _)

theorem suppliesItems (hv : V v) : Supplies P V id (Render.ofOutcome (Filter.items v)) :=
  h.suppliesOutcome (Filter.failsOnly_items v).isRefusal fun _ hitems => hV.filterItems hv hitems

theorem suppliesMembers (hv : V v) : Supplies P V id (Render.ofOutcome (Filter.members v)) :=
  h.suppliesOutcome (Filter.failsOnly_members v).isRefusal fun _ hmembers => hV.filterMembers hv hmembers

variable (hproperty : ∀ key item, V item → Supplies P V only (BuiltinFilter.property key item))

include hproperty

/-- **Every built-in filter supplies values**, when the value and the arguments it is applied to satisfy
`V`, and so do the properties of such values. -/
theorem suppliesBuiltin (f : BuiltinFilter) {args : List Value} (hv : V v)
    (hargs : ∀ a ∈ args, V a) : Supplies P V only (f.apply v args) := by
  have hchars (w : Value) := h.supplies (V := V) (h.charsOf w)
  have hcombine (onInts : Int → Int → Int) (onFloats : Binary64 → Binary64 → Binary64) (a b : Numeric) :=
    (Numeric.failsOnly_combine onInts onFloats a b).isRefusal
  unfold BuiltinFilter.apply
  -- one case for each filter, in the order of their definition, and one for arguments none takes
  split
  · exact (h.supplies (h.numberOf _)).bind fun _ _ => .pureOne (hV.number _)
  · exact (hchars _).bind fun _ _ => h.suppliesText hV (h.charsOf _) _
  · exact (hchars _).bind fun _ _ => h.suppliesText hV (h.charsOf _) _
  · exact h.suppliesNumbers hV (fun _ _ => failsOnly_ok _) _ _
  · exact h.suppliesNumbers hV (fun _ _ => failsOnly_ok _) _ _
  · exact h.suppliesText hV (h.charsOf _) _
  · exact h.suppliesText hV (h.charsOf _) _
  · exact h.suppliesText hV (h.charsOf _) _
  · exact h.suppliesText hV (h.charsOf _) _
  · exact h.suppliesText hV (h.charsOf _) _
  · exact h.suppliesText hV (h.charsOf _) _
  · refine (h.supplies (h.ofOutcome (Filter.failsOnly_isMissing _ _).isRefusal)).bind fun _ _ => ?_
    split
    · exact .pureOne (hargs _ List.mem_cons_self)
    · exact .pureOne hv
  · exact h.suppliesNumbers hV Filter.failsOnly_dividedBy _ _
  · exact h.suppliesNumbers hV Filter.failsOnly_modulo _ _
  · exact h.suppliesNumbers hV (hcombine _ _) _ _
  · exact h.suppliesNumbers hV (hcombine _ _) _ _
  · exact h.suppliesNumbers hV (hcombine _ _) _ _
  · exact (h.supplies (h.intOf _)).bind fun _ _ => (h.supplies (h.numberOf _)).bind fun _ _ =>
      (h.supplies (h.ofOutcome (Filter.failsOnly_round _ _).isRefusal)).bind fun _ _ =>
      .pureOne (hV.number _)
  · split
    · exact .pureOne hV.nil
    · exact h.suppliesText hV (h.charsOf _) _
  · exact (h.suppliesMembers hV hv).bind fun _ hitems => .pureOne (hV.headD hitems)
  · exact (h.suppliesMembers hV hv).bind fun _ hitems => .pureOne (hV.getLastD hitems)
  · exact (hchars _).bind fun _ _ =>
      (h.supplies (h.ofOutcome (Filter.failsOnly_items _).isRefusal)).bind fun _ _ =>
      h.suppliesText hV (h.mapM h.charsOf _) _
  · exact (h.suppliesItems hV hv).bind fun _ hitems =>
      .pureOne (hV.list fun v hv => hitems v (List.mem_reverse.mp hv))
  · exact (h.supplies (h.ofOutcome (Filter.failsOnly_size _).isRefusal)).bind fun _ _ =>
      .pureOne (hV.int _)
  · refine (h.suppliesItems hV hv).bind fun items hitems =>
      (suppliesKeyed hitems fun item hitem => hproperty _ item (hitems item hitem)).bind
        fun ks hks => ?_
    have hsorted : Supplies P V id (Render.ofOutcome (Filter.sortKeyed ks)) := by
      refine h.suppliesOutcome (Filter.failsOnly_sortKeyed ks) fun vs hsort v hv => ?_
      obtain ⟨k, hk, rfl⟩ := Filter.mem_sortKeyed hsort hv
      exact hks _ (List.mem_map_of_mem hk)
    exact hsorted.bind fun _ hvs => .pureOne (hV.list hvs)
  · exact (h.suppliesItems hV hv).bind fun _ hitems =>
      (suppliesProperties fun item hitem => hproperty _ item (hitems item hitem)).bind
        fun _ hvs => .pureOne (hV.list hvs)
  · exact (h.suppliesItems hV hv).bind fun _ hitems =>
      .pureOne (hV.list fun v hv => hitems v (Filter.mem_uniq hv))
  · refine (hchars _).bind fun _ _ => (hchars _).bind fun _ _ => .pureOne (hV.list fun v hv => ?_)
    obtain ⟨piece, -, rfl⟩ := List.mem_map.mp hv
    exact hV.str _
  · exact (hchars _).bind fun _ _ => (hchars _).bind fun _ _ => h.suppliesText hV (h.charsOf _) _
  · exact (hchars _).bind fun _ _ => h.suppliesText hV (h.charsOf _) _
  · exact (hchars _).bind fun _ _ => (hchars _).bind fun _ _ => h.suppliesText hV (h.intOf _) _
  · exact .pureOne hv

end

/-- What is needed of a filter that a host adds: what it gives satisfies `V`, a variable that it looks up
can be, and so can the failures that it raises. -/
def HostFilterUsable (P : (α : Type) → Render α → Prop) (V : Value → Prop) : HostFilter → Prop
  | .constant result => V result
  | .lookup => ∀ v, V v → Supplies P V only (Render.findNamed v)
  | .custom g => ∀ v args kwargs, V v → (∀ a ∈ args, V a) → (∀ entry ∈ kwargs, V entry.2) →
      Supplies P V only (Render.ofOutcome (g v args kwargs))
  | .failing failure => P Value (MonadExcept.throw failure)
  | .render => ∀ outcome, P String (Render.ofOutcome outcome)
  | .shout | .echo | .templateName => True

section

variable {args : List Value} {kwargs : Named Value} (hV : ValueClosed V) (hv : V v)
  (hargs : ∀ a ∈ args, V a) (hkwargs : ∀ entry ∈ kwargs, V entry.2)

include hV hv hargs hkwargs

theorem suppliesHost {f : HostFilter} (hf : HostFilterUsable P V f) :
    Supplies P V only (f.apply v args kwargs) := by
  have htext (w : Value) : P String (do Render.ofOutcome (w.output (← Render.loops))) :=
    h.bind h.loops fun _ => h.ofOutcome (Value.failsOnly_output _ _).isHost.isRefusal
  unfold HostFilter.apply
  dsimp only
  -- what host filters read of the settings is never a ceiling or a strictness
  split
  · exact (h.supplies (htext _)).bind fun _ _ => .pureOne (hV.str _)
  · refine (h.supplies (htext _)).bind fun _ _ => (h.supplies (h.mapM htext _)).bind fun _ _ =>
      (h.supplies (h.mapM ?_ _)).bind fun _ _ => .pureOne (hV.str _)
    exact fun entry => h.bind (htext entry.2) fun _ => h.pure _
  · exact .pureOne hf
  · exact h.suppliesGiven hf (fun _ _ _ _ hrun => nomatch hrun) (List.forall_mem_singleton.mpr hV.nil)
  · refine h.suppliesReads (fun _ => rfl) fun σ => .pureOne ?_
    cases σ.templateName with
    | none => exact hV.nil
    | some name => exact hV.str name
  · exact hf v hv
  · exact h.suppliesReads (fun _ => rfl) fun _ => (h.supplies (htext v)).bind fun _ _ =>
      (h.supplies (h.notify _)).bind fun _ _ => (h.supplies (hf _)).bind fun _ _ => .pureOne (hV.str _)
  · exact hf v args kwargs hv hargs hkwargs

end

/-- What is needed of a filter to supply values. -/
def FilterUsable (P : (α : Type) → Render α → Prop) (V : Value → Prop) : Filter → Prop
  | .builtin _ => ∀ key item, V item → Supplies P V only (BuiltinFilter.property key item)
  | .host f => HostFilterUsable P V f

theorem suppliesFilter (hV : ValueClosed V) {f : Filter} (hf : FilterUsable P V f) (hv : V v)
    {args : List Value} (hargs : ∀ a ∈ args, V a) {kwargs : Named Value}
    (hkwargs : ∀ entry ∈ kwargs, V entry.2) : Supplies P V only (f.apply v args kwargs) := by
  unfold Filter.apply
  split
  · next f =>
    have hbound : Supplies P V id
        (Render.ofOutcome (Parameters.bind f.function f.parameters args kwargs)) :=
      h.suppliesOutcome (Parameters.failsOnly_bind _ _ _ _).isHost.isRefusal fun _ =>
        Parameters.forall_bind (hV.defaults f) hargs hkwargs
    exact hbound.bind fun _ hall => h.suppliesBuiltin hV hf f hv hall
  · exact h.suppliesHost hV hv hargs hkwargs hf

/-- Applying a filter asks the settings for nothing but which filter has the name. -/
theorem suppliesInvoke {S : Settings → Prop} (hP : LooksAt S P) {name : String}
    (registered : Option Filter) (hregistered : ∀ σ, S σ → σ.filters.get? name = registered) (hv : V v)
    {args : List Value} {kwargs : Named Value}
    (happly : ∀ f, registered = some f → Supplies P V only
      (tryCatch (f.apply v args kwargs) fun e => MonadExcept.throw (Filter.blame name e))) :
    Supplies P V only (Filter.invoke name v args kwargs) := by
  unfold Filter.invoke
  split
  · exact h.suppliesThrow (Failure.isRefusal_host _)
  · cases registered with
    | none =>
      refine .congr hP (y := Filter.unregistered name v) (fun σ hσ s => ?_)
        (h.suppliesUnregistered name hv)
      rw [runFrom_bind, runFrom_read]
      dsimp only
      rw [hregistered σ hσ]
    | some f =>
      refine .congr hP (fun σ hσ s => ?_) (happly f rfl)
      rw [runFrom_bind, runFrom_read]
      dsimp only
      rw [hregistered σ hσ]

/-! ## Conditions -/

theorem comparison {c : Comparison} (hexprs : ∀ e ∈ c.exprs, P Value e.evaluate) : P Bool c.holds := by
  have hright : P Value c.right.evaluate := hexprs _ (List.mem_cons_of_mem _ List.mem_cons_self)
  unfold Comparison.holds
  refine h.bind (hexprs _ List.mem_cons_self) fun _ => ?_
  split
  · exact h.pure _
  · refine h.bind hright fun _ => ?_
    split
    · exact h.bind h.loops fun _ => h.ofOutcome (Operator.failsOnly_apply _ _ _ _)
    · exact h.throw (Failure.isRefusal_badArgument _)

theorem join (sofar : Bool) (relation : String) {c : Comparison} (hc : P Bool c.holds) :
    P Bool (Condition.join sofar relation c) := by
  unfold Condition.join
  split
  · split
    · exact h.pure _
    · exact hc
  · split
    · exact hc
    · exact h.pure _

theorem holdsFrom (sofar : Bool) (relation : String) {c : Condition}
    (hlinks : ∀ link ∈ c.links, P Bool link.1.holds) :
    P Bool (Condition.holdsFrom sofar relation c) := by
  induction c generalizing sofar relation with
  | single c => exact h.join sofar relation (hlinks _ List.mem_cons_self)
  | joined c next rest ih =>
    obtain ⟨hc, hrest⟩ := List.forall_mem_cons.mp hlinks
    exact h.bind (h.join sofar relation hc) fun _ => ih _ _ hrest

theorem condition {c : Condition} (hexprs : ∀ e ∈ c.exprs, P Value e.evaluate) : P Bool c.holds := by
  have hlinks : ∀ link ∈ c.links, P Bool link.1.holds := fun link hlink =>
    h.comparison fun e he => hexprs e (List.mem_flatMap.mpr ⟨link, hlink, he⟩)
  cases c with
  | single c => exact hlinks _ List.mem_cons_self
  | joined c relation rest =>
    obtain ⟨hc, hrest⟩ := List.forall_mem_cons.mp hlinks
    exact h.bind hc fun _ => h.holdsFrom _ _ hrest

/-! ## Outputs and bounds -/

theorem outputText (v : Value) : P String (Render.outputText v) :=
  h.bind h.loops fun _ => h.ofOutcome (Value.failsOnly_output _ _).isHost.isRefusal

/-- The global filter is a function of the host, which raises what it likes. -/
theorem filterGlobally (hraise : ∀ e, P Value (MonadExcept.throw e)) (v : Value) :
    P Value (Render.filterGlobally v) := by
  unfold Render.filterGlobally
  refine h.reads (fun _ => rfl) fun _ => ?_
  split
  · exact h.pure _
  · exact h.bind (h.outputText _) fun _ => h.pure _
  · exact h.pure _
  · exact h.pure _
  · exact hraise _
  · next f _ =>
    cases f v with
    | ok w => exact h.pure w
    | error e => exact hraise e

theorem output {o : Output} (hpipeline : P Value o.pipeline.evaluate)
    (hglobal : ∀ v, P Value (Render.filterGlobally v)) : P String o.render :=
  h.bind hpipeline fun _ => h.bind (hglobal _) fun _ => h.outputText _

theorem leaf (kind : LeafKind) (markup : String) : P String (kind.render markup) := by
  cases kind with
  | shout => exact h.pure _
  | scopeDepth => exact h.looks (fun _ => rfl) fun _ => h.pure _
  | plain => exact h.pure _

theorem bound {e : Option Expr} (he : ∀ e' ∈ e, P Value e'.evaluate) :
    P (Option Int) (Render.bound e) := by
  unfold Render.bound
  split
  · exact h.pure _
  · exact h.bind (he _ rfl) fun _ => h.bind h.loops fun _ =>
      h.bind (h.ofOutcome (Value.failsOnly_toInt _ _).isRefusal) fun _ => h.pure _

end StepClosed

namespace EvaluationClosed

variable {P : (α : Type) → Render α → Prop} (h : EvaluationClosed P)

include h

/-- A step that gives any outcome of the host and changes nothing. -/
theorem outcome (o : Outcome α) : P α (Render.ofOutcome o) := by
  cases o with
  | ok a => exact h.pure a
  | error e => exact h.raise e

/-! ## Lookups -/

theorem hostValues : HostValues P fun _ => True where
  toValueClosed := valueClosed_true
  proxied _ := trivial
  result _ := trivial
  failing _ _ := h.raise _
  method _ _ := trivial
  property _ _ := trivial
  member _ _ _ := h.raise _

theorem hostClosed : HostClosed P fun _ => True :=
  h.toStepClosed.hostClosed h.hostValues (h.suppliesAny h.layers)

theorem findNamed (name : Value) : P Value (Render.findNamed name) :=
  (h.suppliesFindNamed h.hostValues (h.suppliesAny h.layers) name).run h.pure

theorem resolve (v key : Value) : P Value (Render.resolve v key) :=
  (h.hostClosed.resolve trivial key).run h.pure

theorem step? (v key : Value) (command : Option String)
    (hask : ∀ key, P Unit (Render.ask .path v key)) :
    P (Option Value) (Render.step? v key command) :=
  (h.suppliesStep h.hostClosed trivial key command hask).run h.pure

end EvaluationClosed

namespace AskingClosed

variable {P : (α : Type) → Render α → Prop} (h : AskingClosed P)

include h

theorem evaluate (e : Expr) : P Value e.evaluate :=
  (h.suppliesLiterals h.hostValues (h.suppliesAny h.layers) (h.ask .path) fun _ _ => trivial).run h.pure

theorem property (key item : Value) : P Value (BuiltinFilter.property key item) :=
  (h.suppliesProperty h.hostClosed trivial key (h.ask .item item key)).run h.pure

/-- **Every evaluation has a property that all questions have.** -/
theorem evaluates : Evaluates P where
  toEvaluationClosed := h.toEvaluationClosed
  evaluate := h.evaluate
  property := h.property

end AskingClosed

theorem evaluationRelation_quiet : EvaluationRelation fun _ s t => t.errors = s.errors where
  refl _ _ := rfl
  trans hst htu := htu.trans hst
  bound _ _ _ := rfl
  notices _ _ _ := rfl

theorem evaluates_quiet : Evaluates Quiet :=
  (evaluationRelation_quiet.asking fun _ _ _ => rfl).evaluates

namespace Evaluates

variable {P : (α : Type) → Render α → Prop} (h : Evaluates P)

include h

theorem condition (c : Condition) : P Bool c.holds :=
  h.toStepClosed.condition fun e _ => h.evaluate e

theorem comparison (c : Comparison) : P Bool c.holds :=
  h.toStepClosed.comparison fun e _ => h.evaluate e

/-! ## Filters and pipelines -/

theorem filter (f : Filter) (v : Value) (args : List Value) (kwargs : Named Value) :
    P Value (f.apply v args kwargs) := by
  have husable : StepClosed.FilterUsable P (fun _ => True) f := by
    cases f with
    | builtin f => exact fun key item _ => h.suppliesAny (h.property key item)
    | host f =>
      cases f with
      | lookup => exact fun v _ => h.suppliesAny (h.findNamed v)
      | custom g => exact fun v args kwargs _ _ _ => h.suppliesAny (h.outcome (g v args kwargs))
      | failing failure => exact h.raise failure
      | render => exact h.outcome
      | _ => trivial
  exact (h.suppliesFilter valueClosed_true husable trivial (fun _ _ => trivial)
    fun _ _ => trivial).run h.pure

theorem invoke (name : String) (v : Value) (args : List Value) (kwargs : Named Value) :
    P Value (Filter.invoke name v args kwargs) := by
  unfold Filter.invoke
  split
  · exact h.raise _
  · refine h.reads (fun _ => rfl) fun _ => ?_
    split
    · exact h.unregistered _ _
    · exact h.blame name (evaluates_quiet.filter _ _ _ _) (h.filter _ _ _ _)

theorem pipeline (p : Pipeline) : P Value p.evaluate :=
  (suppliesPipeline (fun name v args kwargs _ _ _ => h.suppliesAny (h.invoke name v args kwargs)) p
    fun e _ => h.suppliesAny (h.evaluate e)).run h.pure

/-! ## Outputs and bounds -/

theorem output (o : Output) : P String o.render :=
  h.toStepClosed.output (h.pipeline _) (h.filterGlobally h.raise)

theorem bound (e : Option Expr) : P (Option Int) (Render.bound e) :=
  h.toStepClosed.bound fun e _ => h.evaluate e

end Evaluates

end Render

end Stencil
