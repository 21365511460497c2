import Mathlib
import Stencil.Proofs.Render.Kept

/-!
# Which host objects are bound when they are asked

A path binds every value that it reaches before it goes on from there, and what is bound stays bound, so
that every host object that a path asks for a key is bound to the render. The filters that read a property
of each item take the items as they are; the first question they put to an item can come before anything
has bound it.

* `Bound s v`: the value is bound to the render, if it is a host object.
* `Asked s t`: no object is released, and every path that asked an object found it bound.
* `asked_evaluate`: expressions keep this, by induction on the expression and its paths.
* `paths_ask_bound_objects`: every question of a whole render.
-/

namespace Stencil

namespace Render

variable {α β : Type} {σ : Settings} {s t : RenderState} {v : Value}

/-! ## Bound values -/

/-- The value is bound to the render, if it is a host object. -/
def Bound (s : RenderState) (v : Value) : Prop := s.isBound? v ≠ some false

/-- No object was released, and every path that asked an object found it bound. -/
structure Asked (s t : RenderState) : Prop where
  drops : ∀ id ∈ s.boundDrops, id ∈ t.boundDrops
  loops : ∀ id ∈ s.boundLoops, id ∈ t.boundLoops
  asks : ∃ new, t.asks = new ++ s.asks ∧ ∀ a ∈ new, a.route = .path → a.bound = true

/-- What is bound stays bound. -/
theorem Asked.bound (h : Asked s t) (hv : Bound s v) : Bound t v := by
  cases v with
  | drop id d =>
    simp only [Bound, RenderState.isBound?, ne_eq, Option.some.injEq, Bool.not_eq_false,
      List.contains_iff_mem] at hv ⊢
    exact h.drops id hv
  | loop id =>
    simp only [Bound, RenderState.isBound?, ne_eq, Option.some.injEq, Bool.not_eq_false,
      List.contains_iff_mem] at hv ⊢
    exact h.loops id hv
  | _ => exact fun h => nomatch h

theorem Asked.trans {u : RenderState} (hst : Asked s t) (htu : Asked t u) : Asked s u := by
  obtain ⟨new, hnew, hbound⟩ := hst.asks
  obtain ⟨newer, hnewer, hbound'⟩ := htu.asks
  refine ⟨fun id hid => htu.drops id (hst.drops id hid), fun id hid => htu.loops id (hst.loops id hid),
    newer ++ new, by rw [hnewer, hnew, List.append_assoc], fun a ha => ?_⟩
  exact (List.mem_append.mp ha).elim (hbound' a) (hbound a)

theorem Asked.of_subset (hdrops : ∀ id ∈ s.boundDrops, id ∈ t.boundDrops)
    (hloops : ∀ id ∈ s.boundLoops, id ∈ t.boundLoops) (hasks : t.asks = s.asks) : Asked s t :=
  ⟨hdrops, hloops, [], hasks, fun _ ha => nomatch ha⟩

/-- An object that is bound once more takes the place of the one it was. -/
theorem mem_cons_erase {id other : Nat} {ids : List Nat} (h : other ∈ ids) :
    other ∈ id :: ids.erase id := by
  by_cases heq : other = id
  · exact heq ▸ List.mem_cons_self
  · exact List.mem_cons_of_mem _ ((List.mem_erase_of_ne heq).mpr h)

theorem asked_binding (s : RenderState) (v : Value) : Asked s (s.binding v) := by
  cases v with
  | drop id d => exact .of_subset (fun _ h => mem_cons_erase h) (fun _ h => h) rfl
  | loop id => exact .of_subset (fun _ h => h) (fun _ h => mem_cons_erase h) rfl
  | _ => exact .of_subset (fun _ h => h) (fun _ h => h) rfl

theorem bound_binding (s : RenderState) (v : Value) : Bound (s.binding v) v := by
  cases v <;> simp [Bound, RenderState.isBound?, RenderState.binding]

/-- A question may be put by a filter, or to a bound object. -/
theorem asked_noteAsk {route : Route} (hv : route = .path → Bound s v) (key : Value) :
    Asked s (s.noteAsk route v key) := by
  refine ⟨fun _ h => h, fun _ h => h, _, rfl, fun a ha hroute => ?_⟩
  obtain ⟨bound, hbound, rfl⟩ := Option.map_eq_some_iff.mp (Option.mem_toList.mp ha)
  cases bound with
  | true => rfl
  | false => exact absurd hbound (hv hroute)

theorem traceRelation_asked : TraceRelation fun _ => Asked where
  same hdrops hloops hasks _ _ :=
    .of_subset (fun _ h => hdrops ▸ h) (fun _ h => hloops ▸ h) hasks
  trans := Asked.trans
  bound _ := asked_binding

/-! ## Steps from a bound value -/

/-- From a state in which a value is bound, the step puts no question of a path to an unbound object. -/
def AsksWhile (v : Value) (α : Type) (step : Render α) : Prop :=
  ∀ σ s, Bound s v → Asked s (step.runFrom σ s).2

theorem asksWhile_of_keeps {x : Render α} (hx : Keeps (fun _ => Asked) α x) : AsksWhile v α x :=
  fun σ s _ => hx σ s

theorem evaluationClosed_asksWhile (v : Value) : EvaluationClosed (AsksWhile v) := by
  have hclosed := traceRelation_asked.evaluation.closed
  refine {
    inspect := fun look hlook => asksWhile_of_keeps (hclosed.inspect look hlook)
    bind := fun {α β x f} hx hf σ s hv => ?_
    blame := fun {α x} name _ hx σ s hv => ?_
    bindHost := fun w => asksWhile_of_keeps (hclosed.bindHost w)
    notify := fun notices => asksWhile_of_keeps (hclosed.notify notices)
    undefined := fun name => asksWhile_of_keeps (hclosed.undefined name)
    missing := fun bound key => asksWhile_of_keeps (hclosed.missing bound key)
    lost := fun key => asksWhile_of_keeps (hclosed.lost key)
    unregistered := fun name w => asksWhile_of_keeps (hclosed.unregistered name w)
    layers := asksWhile_of_keeps hclosed.layers
    raise := fun e => asksWhile_of_keeps (hclosed.raise e) }
  · have hstep := hx σ s hv
    rw [runFrom_bind]
    generalize x.runFrom σ s = out at hstep
    match out with
    | (.error e, t) => exact hstep
    | (.ok a, t) => exact hstep.trans (hf a σ t (hstep.bound hv))
  · have hstep := hx σ s hv
    rw [runFrom_tryCatch]
    generalize x.runFrom σ s = out at hstep
    match out with
    | (.error e, t) => exact hstep
    | (.ok a, t) => exact hstep

/-- A step of a path asks the value it starts from. -/
theorem asked_step (hv : Bound s v) (key : Value) (command : Option String) :
    Asked s ((step? v key command).runFrom σ s).2 :=
  (evaluationClosed_asksWhile v).step? v key command
    (fun key _ _ hv => asked_noteAsk (fun _ => hv) key) σ s hv

/-! ## What paths reach is bound -/

theorem bound_of_bindHost {w : Value} (hrun : (Render.bind w).runFrom σ s = (.ok v, t)) : Bound t v := by
  rw [runFrom_bindHost] at hrun
  cases hrun
  exact bound_binding s _

theorem bound_of_undefined {name : Value} (hrun : (undefined name).runFrom σ s = (.ok v, t)) :
    Bound t v := by
  rw [undefined_eq_ok hrun]
  exact fun h => nomatch h

theorem bound_of_settle {find : String → Render Value} {w : Value}
    (hrun : (settle find w).runFrom σ s = (.ok v, t)) : Bound t v := by
  unfold settle at hrun
  split at hrun
  · obtain ⟨_, _, -, hbind⟩ := bind_eq_ok hrun
    exact bound_of_bindHost hbind
  · exact bound_of_bindHost hrun

theorem bound_of_find {name : String} (hrun : (find name).runFrom σ s = (.ok v, t)) : Bound t v := by
  obtain ⟨layers, u, -, hfound⟩ := bind_eq_ok hrun
  unfold findWithin at hfound
  obtain ⟨_, _, -, hthen⟩ := bind_eq_ok hfound
  split at hthen
  · exact bound_of_settle hthen
  · exact bound_of_undefined hthen

theorem bound_of_findNamed {name : Value} (hrun : (findNamed name).runFrom σ s = (.ok v, t)) :
    Bound t v := by
  unfold findNamed at hrun
  split at hrun
  · exact bound_of_find hrun
  · obtain ⟨_, _, -, hthen⟩ := bind_eq_ok hrun
    split at hthen
    · cases hthen
    · exact bound_of_undefined hthen

theorem bound_of_step {w key : Value} {command : Option String}
    (hrun : (step? w key command).runFrom σ s = (.ok (some v), t)) : Bound t v := by
  have hfound {found : Value} {u : RenderState}
      (hthen : (do return some (← Render.bind (unwrap found)) : Render (Option Value)).runFrom σ u =
        (.ok (some v), t)) : Bound t v := by
    obtain ⟨_, _, hbind, hpure⟩ := bind_eq_ok hthen
    cases hpure
    exact bound_of_bindHost hbind
  unfold step? at hrun
  obtain ⟨found, u, -, hthen⟩ := bind_eq_ok hrun
  split at hthen
  · exact hfound hthen
  · cases hthen
  · obtain ⟨found, u, -, hthen⟩ := bind_eq_ok hthen
    split at hthen
    · exact hfound hthen
    · cases hthen

/-! ## Expressions -/

/-- The second step starts from a state that the first one leads to, with a value it gives. -/
theorem asked_bind {x : Render α} {f : α → Render β} (hx : Asked s (x.runFrom σ s).2)
    (hf : ∀ a t, x.runFrom σ s = (.ok a, t) → Asked s t → Asked t ((f a).runFrom σ t).2) :
    Asked s ((x >>= f).runFrom σ s).2 := by
  rw [runFrom_bind]
  cases hrun : x.runFrom σ s with
  | mk outcome t =>
    rw [hrun] at hx
    cases outcome with
    | error e => exact hx
    | ok a => exact hx.trans (hf a t hrun hx)

mutual

/-- Induction on the expression: every path in it starts from a value that was looked up. -/
theorem asked_evaluate (e : Expr) : Keeps (fun _ => Asked) Value e.evaluate :=
  have hclosed := traceRelation_asked.evaluation.closed
  match e with
  | .value v => by
    unfold Expr.evaluate
    exact hclosed.pure v
  | .lookup root path => by
    unfold Expr.evaluate
    intro σ s
    refine asked_bind (asked_evaluate root σ s) fun name t _ _ => ?_
    exact asked_bind (hclosed.findNamed name σ t) fun v u hfound _ =>
      asked_follow path v σ u (bound_of_findNamed hfound)
  | .range first last => by
    unfold Expr.evaluate
    exact hclosed.bind (asked_evaluate first) fun _ => hclosed.bind hclosed.loops fun _ =>
      hclosed.bind (hclosed.outcome _) fun _ => hclosed.bind (asked_evaluate last) fun _ =>
      hclosed.bind hclosed.loops fun _ => hclosed.bind (hclosed.outcome _) fun _ => hclosed.pure _

/-- Induction on the path: what a step leads to is bound, and the next step goes on from there. -/
theorem asked_follow (path : List Step) (v : Value) : AsksWhile v Value (Expr.follow path v) :=
  have hclosed := traceRelation_asked.evaluation.closed
  match path with
  | [] => by
    unfold Expr.follow
    exact asksWhile_of_keeps (hclosed.pure v)
  | .name name :: rest => by
    unfold Expr.follow
    intro σ s hv
    refine asked_bind (asked_step hv _ _) fun next t hstep _ => ?_
    cases next with
    | none => exact hclosed.lost _ σ t
    | some next => exact asked_follow rest next σ t (bound_of_step hstep)
  | .index e :: rest => by
    unfold Expr.follow
    intro σ s hv
    refine asked_bind (asked_evaluate e σ s) fun key t _ hst => ?_
    refine asked_bind (asked_step (hst.bound hv) _ _) fun next u hstep _ => ?_
    cases next with
    | none => exact hclosed.lost _ σ u
    | some next => exact asked_follow rest next σ u (bound_of_step hstep)

end

/-- A filter may put its question to an object that nothing has bound. -/
theorem asked_property (key item : Value) :
    Keeps (fun _ => Asked) Value (BuiltinFilter.property key item) := by
  have hclosed := traceRelation_asked.evaluation.closed
  have hitem (item : Value) : Keeps (fun _ => Asked) Unit (ask .item item key) := by
    intro σ s
    refine asked_noteAsk (fun hroute => ?_) key
    cases hroute
  unfold BuiltinFilter.property
  split
  · exact hclosed.bind (hitem _) fun _ => hclosed.resolve _ _
  · exact hclosed.bind (hitem _) fun _ => hclosed.resolve _ _
  · exact hclosed.bind (hclosed.outcome _) fun _ => hclosed.pure _
  · exact hclosed.pure _

theorem evaluates_asked : Evaluates (Keeps fun _ => Asked) where
  toEvaluationClosed := traceRelation_asked.evaluation.closed
  evaluate := asked_evaluate
  property := asked_property

theorem asked_itemsOf (header : LoopHeader) :
    Keeps (fun _ => Asked) (List Value) header.itemsOf :=
  (traceRelation_asked.renderClosed evaluates_asked).itemsOf header
    (fun _ _ _ => .of_subset (fun _ h => h) (fun _ h => h) rfl)
    fun _ => traceRelation_asked.evaluation.keeps_of_eq fun _ _ => rfl

end Render

/-! ## Whole renders -/

open Render

/-- **Paths only ask bound objects.** Whenever a render asks a host object for a key in a step of a path,
the object is bound to this render, however it was reached. A drop that is bound answers a method that
reads a variable with the value the variable has in this render. -/
theorem paths_ask_bound_objects (σ : Settings) (counts : Counts) (registers : Registers) (body : Body) :
    (∀ a ∈ (Environment.run σ counts registers body).state.asks, a.route = .path → a.bound = true) ∧
      ∀ (s : RenderState) (id : Nat) (d : Drop Value) (name target : String),
        d.exposed.contains name = true → d.member? name = some (.reading target) →
          s.isBound? (.drop id d) = some true →
            (resolve (.drop id d) (.str name)).runFrom σ s = (find target).runFrom σ s := by
  refine ⟨fun a ha hroute => ?_, fun s id d name target hexposed hmember hbound => ?_⟩
  · obtain ⟨new, hnew, hbound⟩ :=
      (traceRelation_asked.keeps_run evaluates_asked asked_itemsOf body σ counts registers).asks
    rw [hnew, List.append_nil] at ha
    exact hbound a ha hroute
  · have hcontains : s.boundDrops.contains id = true := Option.some.inj hbound
    simp only [resolve, hexposed, hmember, Bool.not_true, Bool.false_eq_true, if_false, member,
      runFrom_bind, runFrom_get, hcontains, if_true]

/-- A drop with a method that reads a variable. -/
def readingDrop : Value :=
  .drop 0 { name := "reader", members := [("v", .reading "x")], keys := none, missing := none
            items := none, slices := none }

/-- The settings of a render with such a drop in a list, and the variable. -/
def readingSettings : Settings where
  environments := [[("x", .str "X"), ("list", .list [readingDrop])]]

/-- The method of the first item of the list. -/
def firstReading : Node := .output {
  pipeline := { expr := .lookup (.value (.str "list")) [.index (.value (.int 0)), .name "v"] }
  markup := "list[0].v", line := some 1 }

/-- The method of all items of the list. -/
def allReadings : Node := .output {
  pipeline := {
    expr := .lookup (.value (.str "list")) []
    filters := [{ name := "map", args := [.value (.str "v")] }] }
  markup := "list | map: 'v'", line := some 1 }

/-- A path finds the drop bound, and its method reads the variable. -/
theorem paths_ask_bound_objects_firstReading :
    (Environment.run readingSettings {} {} [firstReading]).result = .ok "X" ∧
      ∃ a ∈ (Environment.run readingSettings {} {} [firstReading]).state.asks,
        a.object = readingDrop ∧ a.route = .path ∧ a.bound = true := by
  have hasks : (Environment.run readingSettings {} {} [firstReading]).state.asks =
      [⟨readingDrop, .str "v", .path, true⟩] := by cbv
  have hmem : ⟨readingDrop, .str "v", .path, true⟩ ∈
      (Environment.run readingSettings {} {} [firstReading]).state.asks :=
    hasks ▸ List.mem_cons_self
  exact ⟨by cbv, _, hmem, rfl, rfl,
    (paths_ask_bound_objects readingSettings {} {} [firstReading]).1 _ hmem rfl⟩

/-- The filter asks the drop before anything has bound it, so that its method does not find the variable. -/
theorem map_asks_unbound_drop :
    (Environment.run readingSettings {} {} [allReadings]).result = .ok "" ∧
      ¬ ∀ (σ : Settings) (counts : Counts) (registers : Registers) (body : Body),
        ∀ a ∈ (Environment.run σ counts registers body).state.asks, a.bound = true := by
  have hasks : (Environment.run readingSettings {} {} [allReadings]).state.asks =
      [⟨readingDrop, .str "v", .item, false⟩] := by cbv
  refine ⟨by cbv, fun hall => ?_⟩
  have hbound := hall readingSettings {} {} [allReadings]
  rw [hasks] at hbound
  exact absurd (hbound _ List.mem_cons_self) (by decide)

end Stencil
