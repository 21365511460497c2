import Mathlib.Data.List.Forall2
import Stencil.Proofs.Filter.Invocation

/-!
# The filter `map` and steps of paths

Properties are read in two places: `map` takes what an item holds under a key as it is, and a step of a path calls
a function of the host that it finds there and puts what an object stands for in its place (`runFrom_follow_key`).
The two give the same for whatever is neither (`Value.isDirect`, `map_reads_stored_values`), and not for a
function (`map_leaves_functions`).
-/

namespace Stencil

open Render

/-- Whether a stored value is what looking it up gives: it is no function, and it stands for no other value. -/
def Value.isDirect : Value → Bool
  | .function .. | .proxy .. => false
  | _ => true

/-- A host object that is bound already stays so. -/
theorem RenderState.binding_binding (s : RenderState) (v : Value) : (s.binding v).binding v = s.binding v := by
  cases v <;> simp [RenderState.binding]

variable {σ : Settings} {s : RenderState}

/-! ## Steps of paths -/

namespace Render

/-- What stands under a key of a mapping is looked up like a variable; where nothing does, the path is lost. -/
theorem runFrom_follow_key {key : Value} (hkey : key.unhashable? = none) (es : List (Value × Value)) :
    (Expr.follow [.index (.value key)] (.map es)).runFrom σ s =
      match (es.find? fun e => Value.matchesItem e.1 key).map (·.2) with
      | some v => (settle find v >>= fun w => Render.bind (unwrap w)).runFrom σ s
      | none => (lost key).runFrom σ s := by
  simp only [Expr.follow, Expr.evaluate, step?, key?, runFrom_bind, runFrom_pure,
    Value.entry?_of_hashable hkey es]
  cases (es.find? fun e => Value.matchesItem e.1 key).map (·.2) with
  | none => rfl
  | some v =>
    dsimp only
    rw [runFrom_bind]
    generalize (settle find v).runFrom σ s = out
    obtain ⟨outcome, t⟩ := out
    cases outcome with
    | error e => rfl
    | ok w => simp only [runFrom_pure, runFrom_bind, runFrom_bindHost]

/-- A value that is direct is bound and given as it is. -/
theorem runFrom_settle_of_isDirect {v : Value} (hv : v.isDirect) :
    (settle find v >>= fun w => Render.bind (unwrap w)).runFrom σ s = (.ok v, s.binding v) := by
  have hunwrap : unwrap v = v := by
    cases v with
    | proxy => cases hv
    | _ => rfl
  have hsettle : settle find v = Render.bind v := by
    cases v with
    | function | proxy => cases hv
    | _ => rfl
  rw [hsettle, runFrom_bind, runFrom_bindHost]
  dsimp only
  rw [hunwrap, runFrom_bindHost, RenderState.binding_binding]

/-- A step to a value that is direct, or to none at all, gives what the mapping holds. -/
theorem runFrom_follow_direct (hlax : σ.strictVariables = false) {key : Value} (hkey : key.unhashable? = none)
    {es : List (Value × Value)} (hdirect : ((Value.map es).held key).isDirect) :
    (Expr.follow [.index (.value key)] (.map es)).runFrom σ s =
      (.ok ((Value.map es).held key), s.binding ((Value.map es).held key)) := by
  rw [runFrom_follow_key hkey]
  unfold Value.held at hdirect ⊢
  dsimp only at hdirect ⊢
  cases hfound : (es.find? fun e => Value.matchesItem e.1 key).map (·.2) with
  | none =>
    dsimp only [Option.getD_none]
    rw [runFrom_lost, hlax]
    rfl
  | some v =>
    rw [hfound] at hdirect
    exact runFrom_settle_of_isDirect hdirect

theorem sizeOf_unwrap_le (v : Value) : sizeOf (unwrap v) ≤ sizeOf v := by
  cases v with
  | proxy id inner =>
    simp only [unwrap, Value.proxy.sizeOf_spec]
    omega
  | _ => exact Nat.le_refl _

/-- What an object stands for and what a function gives is smaller than the object or the function. Only a function
that looks a variable up may find itself. -/
theorem settle_ne_of_not_isDirect {v : Value} (hv : v.isDirect = false)
    (hvariable : ∀ id name, v ≠ .function id (.variable name)) (t : RenderState) :
    (settle find v >>= fun w => Render.bind (unwrap w)).runFrom σ s ≠ (.ok v, t) := by
  intro hrun
  match v with
  | .proxy id inner =>
    have hinner : settle find (.proxy id inner) = Render.bind inner := rfl
    rw [hinner, runFrom_bind, runFrom_bindHost] at hrun
    dsimp only at hrun
    rw [runFrom_bindHost, Prod.mk.injEq, Except.ok.injEq] at hrun
    have hle : sizeOf (unwrap inner) ≤ sizeOf inner := sizeOf_unwrap_le inner
    rw [hrun.1, Value.proxy.sizeOf_spec] at hle
    omega
  | .function id (.constant r) =>
    have hresult : settle find (.function id (.constant r)) = Render.bind (unwrap r) := rfl
    rw [hresult, runFrom_bind, runFrom_bindHost] at hrun
    dsimp only at hrun
    rw [runFrom_bindHost, Prod.mk.injEq, Except.ok.injEq] at hrun
    have hle : sizeOf (unwrap (unwrap r)) ≤ sizeOf r :=
      Nat.le_trans (sizeOf_unwrap_le (unwrap r)) (sizeOf_unwrap_le r)
    rw [hrun.1, Value.function.sizeOf_spec, HostFunction.constant.sizeOf_spec] at hle
    omega
  | .function id (.variable name) => exact hvariable id name rfl
  | .function id .scopeCount => cases hrun
  | .function id (.failing failure) => cases hrun

theorem runFrom_follow_ne {key : Value} (hkey : key.unhashable? = none) {es : List (Value × Value)}
    (hdirect : ((Value.map es).held key).isDirect = false)
    (hvariable : ∀ id name, (Value.map es).held key ≠ .function id (.variable name)) {t : RenderState} :
    (Expr.follow [.index (.value key)] (.map es)).runFrom σ s ≠ (.ok ((Value.map es).held key), t) := by
  rw [runFrom_follow_key hkey]
  unfold Value.held at hdirect hvariable ⊢
  dsimp only at hdirect hvariable ⊢
  cases hfound : (es.find? fun e => Value.matchesItem e.1 key).map (·.2) with
  | none =>
    rw [hfound] at hdirect
    cases hdirect
  | some v =>
    rw [hfound] at hdirect hvariable
    exact settle_ne_of_not_isDirect hdirect hvariable t

end Render

/-! ## Mapping -/

open Stencil.Filter

theorem Filter.runFrom_map (hfilter : σ.filters.get? "map" = some (.builtin .map)) {key : Value}
    (hkey : key.unhashable? = none) {items : List Value} (hitems : ∀ item ∈ items, item.isDrop = false) :
    (invoke "map" (.list items) [key] []).runFrom σ s = (.ok (.list (items.map (·.held key))), s) := by
  have hproperties : (items.mapM (BuiltinFilter.property key)).runFrom σ s =
      (.ok (items.map (·.held key)), s) := by
    rw [runFrom_mapM fun item hitem => BuiltinFilter.runFrom_property hkey (hitems item hitem), mapM_pure]
  rw [runFrom_invoke rfl hfilter, runFrom_apply_builtin rfl]
  simp only [BuiltinFilter.apply, Filter.items, Value.toItems, runFrom_bind, runFrom_ofOutcome, hproperties]
  rfl

/-- How what `map` gives for an item compares with what the step of a path gives on it: what stands under the key
is given by both, unless it is not direct; then the path gives something else, or looks a variable up. -/
structure ReadsStored (σ : Settings) (key : Value) (es : List (Value × Value)) (v : Value) : Prop where
  stored : v = (Value.map es).held key
  agrees (hdirect : v.isDirect) (u : RenderState) :
    (Expr.follow [.index (.value key)] (.map es)).runFrom σ u = (.ok v, u.binding v)
  differs (hdirect : v.isDirect = false) (hvariable : ∀ id name, v ≠ .function id (.variable name))
    (u t : RenderState) : (Expr.follow [.index (.value key)] (.map es)).runFrom σ u ≠ (.ok v, t)

/-- **`map` gives what the items hold, and paths give the same where it is direct.** This is so for every item of
a list of mappings and every text as the key. -/
theorem map_reads_stored_values (hfilter : σ.filters.get? "map" = some (.builtin .map))
    (hlax : σ.strictVariables = false) (items : List (List (Value × Value))) (k : String) :
    ∃ vs, (invoke "map" (.list (items.map .map)) [.str k] []).runFrom σ s = (.ok (.list vs), s) ∧
      List.Forall₂ (ReadsStored σ (.str k)) items vs := by
  have hitems : ∀ item ∈ items.map Value.map, item.isDrop = false := by
    intro item hitem
    obtain ⟨es, -, rfl⟩ := List.mem_map.mp hitem
    rfl
  refine ⟨items.map fun es => (Value.map es).held (.str k), ?_, ?_⟩
  · rw [runFrom_map hfilter rfl hitems, List.map_map]
    rfl
  · rw [List.forall₂_map_right_iff, List.forall₂_same]
    intro es _
    refine ⟨rfl, fun hdirect u => runFrom_follow_direct hlax rfl hdirect, fun hdirect hvariable u t => ?_⟩
    exact runFrom_follow_ne rfl hdirect hvariable

/-- An item with a price, one with a function that gives its price, and one without. -/
def pricedItems : List (List (Value × Value)) :=
  [[(.str "price", .int 3)], [(.str "price", .function 0 (.constant (.int 1)))], []]

theorem map_reads_stored_values_pricedItems :
    ∃ vs, (invoke "map" (.list (pricedItems.map .map)) [.str "price"] []).runFrom {} {} = (.ok (.list vs), {}) ∧
      List.Forall₂ (ReadsStored {} (.str "price")) pricedItems vs :=
  map_reads_stored_values rfl rfl pricedItems "price"

/-- A step of a path calls the function that stands under the key, and `map` gives the function itself. -/
theorem map_leaves_functions :
    (invoke "map" (.list [.map [(.str "f", .function 0 (.constant (.int 1)))]]) [.str "f"] []).runFrom {} {} =
        (.ok (.list [.function 0 (.constant (.int 1))]), {}) ∧
      (Expr.follow [.index (.value (.str "f"))] (.map [(.str "f", .function 0 (.constant (.int 1)))])).runFrom
        {} {} = (.ok (.int 1), {}) := by
  constructor
  · rw [runFrom_map rfl rfl (by simp [Value.isDrop])]
    simp [Value.held, Value.matchesItem, Value.sameMark, Value.eqv]
  · rw [runFrom_follow_key rfl]
    simp [Value.matchesItem, Value.sameMark, Value.eqv]
    rfl

end Stencil
