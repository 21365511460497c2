import Stencil.Proofs.Render.Tree
import Stencil.Proofs.Value.Plain

/-!
# Renders that look the same names up

Two mappings of plain values may differ, and agree on some names that are known. A render that only looks
known names up runs alike from both.

* `Agree known data data'`: the mappings hold plain values, and agree on the known names.
* `RunsAlike`: from a state with plain variables, a step ends in the same way with either mapping, and
  leaves plain variables. Values that steps supply are plain, so that nothing in them looks names up.
* `carries_runsAlike`: so does a node whose expressions start their paths from known names.
* `run_of_agree`: a whole render.
-/

namespace Stencil

/-- The settings with this data. -/
def Settings.withData (σ : Settings) (data : Scope) : Settings := { σ with environments := [data] }

/-- The variables of a scope are plain. -/
def Scope.IsPlain (scope : Scope) : Prop := ∀ entry ∈ scope, entry.2.isPlain

/-- The variables of a render are plain. -/
def RenderState.IsPlain (s : RenderState) : Prop := ∀ scope ∈ s.scopes, Scope.IsPlain scope

/-- Two mappings of plain values agree on the names that are known. -/
structure Agree (known : String → Prop) (data data' : Scope) : Prop where
  plain : Scope.IsPlain data
  plain' : Scope.IsPlain data'
  same {name : String} (hname : known name) : data.get? name = data'.get? name

/-- A filter of the host that gives plain values for plain ones, and looks no variable up. -/
def HostFilter.KeepsPlain : HostFilter → Prop
  | .constant result => result.isPlain
  | .lookup => False
  | .custom g => ∀ v args kwargs result, v.isPlain → (∀ a ∈ args, a.isPlain) →
      Scope.IsPlain kwargs → g v args kwargs = .ok result → result.isPlain
  | .shout | .echo | .failing _ | .templateName | .render => True

/-- Such a filter, or a built-in one. -/
def Filter.KeepsPlain : Filter → Prop
  | .builtin _ => True
  | .host f => f.KeepsPlain

theorem Filter.keepsPlain_of_builtinFilters {name : String} {f : Filter}
    (hget : builtinFilters.get? name = some f) : f.KeepsPlain := by
  obtain ⟨entry, hfind, rfl⟩ := Option.map_eq_some_iff.mp hget
  obtain ⟨f, -, rfl⟩ := List.mem_map.mp (List.mem_of_find?_eq_some hfind)
  exact trivial

/-- The literals inside an expression are plain, and its paths start from known names. -/
structure Expr.Known (known : String → Prop) (e : Expr) : Prop where
  literal : ∀ v, .value v ∈ e.subs → v.isPlain
  root : ∀ root path, .lookup root path ∈ e.subs →
    ∃ v, root = .value v ∧ ∀ name, v = .str name → known name

namespace Render

variable {α β : Type} {σ : Settings} {data data' : Scope} {known : String → Prop} {s t : RenderState}

/-! ## Looking a plain variable up -/

theorem settle_of_isPlain {find : String → Render Value} {v : Value} (hv : v.isPlain) :
    settle find v = Render.bind v := by
  cases v with
  | function | proxy => cases hv
  | _ => rfl

/-- What a name stands for in the scopes and the data. -/
def valueOf (s : RenderState) (data : Scope) (name : String) : Value :=
  ((s.scopes ++ [data]).findSome? (·.get? name)).getD .nil

theorem isPlain_of_get {scope : Scope} (hscope : Scope.IsPlain scope) {name : String} {v : Value}
    (hget : scope.get? name = some v) : v.isPlain := by
  obtain ⟨entry, hfind, rfl⟩ := Option.map_eq_some_iff.mp hget
  exact hscope entry (List.mem_of_find?_eq_some hfind)

theorem isPlain_of_findSome (hs : s.IsPlain) (hdata : Scope.IsPlain data) {name : String} {v : Value}
    (hfind : (s.scopes ++ [data]).findSome? (·.get? name) = some v) : v.isPlain := by
  obtain ⟨scope, hscope, hget⟩ := List.exists_of_findSome?_eq_some hfind
  rcases List.mem_append.mp hscope with hscope | hscope
  · exact isPlain_of_get (hs scope hscope) hget
  · exact isPlain_of_get (List.mem_singleton.mp hscope ▸ hdata) hget

theorem isPlain_valueOf (hs : s.IsPlain) (hdata : Scope.IsPlain data) (name : String) :
    (valueOf s data name).isPlain := by
  unfold valueOf
  cases hfind : (s.scopes ++ [data]).findSome? (·.get? name) with
  | none => rfl
  | some v => exact isPlain_of_findSome hs hdata hfind

/-- The innermost binding of a name is its value, when that is plain. -/
theorem runFrom_find_of_binding {name : String} {v : Value}
    (hfind : (s.scopes ++ σ.environments).findSome? (·.get? name) = some v) (hv : v.isPlain) :
    (find name).runFrom σ s = (.ok v, s.binding v) := by
  have hlayers : layers.runFrom σ s = (.ok (s.scopes ++ σ.environments), s) := rfl
  simp only [find, findWithin, runFrom_bind, hlayers, hfind]
  rw [settle_of_isPlain hv, runFrom_bindHost]

/-- A variable that is plain is found without looking another one up. -/
theorem runFrom_find (hlax : σ.strictVariables = false) (hs : s.IsPlain)
    (hdata : Scope.IsPlain data) (name : String) :
    (find name).runFrom (σ.withData data) s =
      (.ok (valueOf s data name), s.binding (valueOf s data name)) := by
  unfold valueOf
  cases hfind : (s.scopes ++ [data]).findSome? (·.get? name) with
  | none =>
    have hlayers : layers.runFrom (σ.withData data) s = (.ok (s.scopes ++ [data]), s) := rfl
    simp only [find, findWithin, runFrom_bind, hlayers, hfind]
    rw [runFrom_undefined]
    simp only [Settings.withData, hlax, Bool.false_eq_true, if_false]
    rfl
  | some v => exact runFrom_find_of_binding hfind (isPlain_of_findSome hs hdata hfind)

theorem valueOf_congr {name : String} (hsame : data.get? name = data'.get? name) :
    valueOf s data name = valueOf s data' name := by
  unfold valueOf
  rw [List.findSome?_append, List.findSome?_append, List.findSome?_cons, List.findSome?_cons, hsame]

/-! ## Steps that run alike -/

/-- From plain variables, the step ends in the same way with both mappings, and leaves plain variables. -/
def RunsAlike (σ : Settings) (data data' : Scope) (α : Type) (step : Render α) : Prop :=
  ∀ s, s.IsPlain → step.runFrom (σ.withData data') s = step.runFrom (σ.withData data) s ∧
    (step.runFrom (σ.withData data) s).2.IsPlain

theorem runsAlike_of_same {x : Render α}
    (hsame : ∀ s, x.runFrom (σ.withData data') s = x.runFrom (σ.withData data) s)
    (hkept : ∀ s, (x.runFrom (σ.withData data) s).2.scopes = s.scopes) :
    RunsAlike σ data data' α x := by
  refine fun s hs => ⟨hsame s, ?_⟩
  unfold RenderState.IsPlain
  rw [hkept]
  exact hs

theorem runsAlike_pure (a : α) : RunsAlike σ data data' α (pure a) :=
  runsAlike_of_same (fun _ => rfl) fun _ => rfl

theorem runsAlike_throw (e : Failure) : RunsAlike σ data data' α (throw e) :=
  runsAlike_of_same (fun _ => rfl) fun _ => rfl

theorem runsAlike_ofOutcome (o : Outcome α) : RunsAlike σ data data' α (ofOutcome o) := by
  cases o with
  | ok a => exact runsAlike_pure a
  | error e => exact runsAlike_throw e

theorem runsAlike_ask (route : Route) (object key : Value) :
    RunsAlike σ data data' Unit (ask route object key) :=
  runsAlike_of_same (fun _ => rfl) fun _ => rfl

theorem runsAlike_bind {x : Render α} {f : α → Render β} (hx : RunsAlike σ data data' α x)
    (hf : ∀ a, RunsAlike σ data data' β (f a)) : RunsAlike σ data data' β (x >>= f) := by
  intro s hs
  obtain ⟨hsame, hplain⟩ := hx s hs
  rw [runFrom_bind, runFrom_bind, hsame]
  generalize x.runFrom (σ.withData data) s = out at hplain
  match out with
  | (.ok a, t) => exact hf a t hplain
  | (.error e, t) => exact ⟨rfl, hplain⟩

theorem runsAlike_tryCatch {x : Render α} {f : Failure → Render α} (hx : RunsAlike σ data data' α x)
    (hf : ∀ e, RunsAlike σ data data' α (f e)) : RunsAlike σ data data' α (tryCatch x f) := by
  intro s hs
  obtain ⟨hsame, hplain⟩ := hx s hs
  rw [runFrom_tryCatch, runFrom_tryCatch, hsame]
  generalize x.runFrom (σ.withData data) s = out at hplain
  match out with
  | (.ok a, t) => exact ⟨rfl, hplain⟩
  | (.error e, t) => exact hf e t hplain

theorem stateClosed_runsAlike (hlax : σ.strictVariables = false) :
    StateClosed (RunsAlike σ data data') where
  inspect _ _ := runsAlike_of_same (fun _ => rfl) fun _ => rfl
  bind := runsAlike_bind
  blame name _ hx := runsAlike_tryCatch hx fun _ => runsAlike_of_same (fun _ => rfl) fun _ => rfl
  bindHost v := runsAlike_of_same (fun s => by rw [runFrom_bindHost, runFrom_bindHost]) fun s => by
    rw [runFrom_bindHost]
    rfl
  notify _ := runsAlike_of_same (fun _ => rfl) fun _ => rfl
  undefined name := by
    refine runsAlike_of_same (fun s => ?_) fun s => ?_
    · simp only [runFrom_undefined, Settings.withData, hlax, Bool.false_eq_true, if_false]
    · rw [runFrom_undefined]
  missing bound key := by
    refine runsAlike_of_same (fun s => ?_) fun s => ?_
    · rw [runFrom_missing, runFrom_missing]
      rfl
    · rw [runFrom_missing]
  lost key := by
    refine runsAlike_of_same (fun s => ?_) fun s => ?_
    · rw [runFrom_lost, runFrom_lost]
      rfl
    · rw [runFrom_lost]
  unregistered name v := by
    refine runsAlike_of_same (fun s => ?_) fun s => ?_
    · rw [runFrom_unregistered, runFrom_unregistered]
      rfl
    · rw [runFrom_unregistered]
  modifyRegisters _ _ _ := runsAlike_of_same (fun _ => rfl) fun _ => rfl
  countScore _ := runsAlike_of_same (fun _ => rfl) fun _ => rfl
  countAssigned _ := runsAlike_of_same (fun _ => rfl) fun _ => rfl
  addLoop _ := runsAlike_of_same (fun _ => rfl) fun _ => rfl
  advanceLoop _ := runsAlike_of_same (fun _ => rfl) fun _ => rfl
  withLoop {α} {x} id hx := by
    intro s hs
    obtain ⟨hsame, hplain⟩ := hx (s.enterLoop id) hs
    rw [runFrom_withLoop, runFrom_withLoop, hsame]
    exact ⟨rfl, hplain⟩

/-! ## Scopes -/

theorem runsAlike_modifyScopes {f : List Scope → List Scope}
    (hf : ∀ scopes : List Scope, (∀ scope ∈ scopes, Scope.IsPlain scope) →
      ∀ scope ∈ f scopes, Scope.IsPlain scope) : RunsAlike σ data data' Unit (modifyScopes f) := by
  intro s hs
  rw [runFrom_modifyScopes, runFrom_modifyScopes]
  refine ⟨rfl, ?_⟩
  split
  · exact hs
  · exact hf s.scopes hs

theorem runsAlike_withScope {x : Render α} {scope : Scope} (hscope : Scope.IsPlain scope)
    (hx : RunsAlike σ data data' α x) : RunsAlike σ data data' α (withScope scope x) := by
  intro s hs
  obtain ⟨hsame, hplain⟩ := hx { s with scopes := scope :: s.scopes }
    (List.forall_mem_cons.mpr ⟨hscope, hs⟩)
  rw [runFrom_withScope, runFrom_withScope, hsame]
  refine ⟨rfl, ?_⟩
  split
  · exact hs
  · exact fun scope hmem => hplain scope (List.mem_of_mem_tail hmem)

theorem treeClosed_runsAlike (hlax : σ.strictVariables = false) :
    TreeClosed (RunsAlike σ data data') (RunsAlike σ data data') fun v => v.isPlain where
  pure := runsAlike_pure
  bind := runsAlike_bind
  loops := runsAlike_of_same (fun _ => rfl) fun _ => rfl
  innermostLoop := runsAlike_of_same (fun _ => rfl) fun _ => rfl
  countScore := (stateClosed_runsAlike hlax).countScore
  addLoop := (stateClosed_runsAlike hlax).addLoop
  advanceLoop := (stateClosed_runsAlike hlax).advanceLoop
  withLoop id := (stateClosed_runsAlike hlax).withLoop id
  withScope _ hscope := runsAlike_withScope hscope
  inner hx := hx
  innerBind := runsAlike_bind
  setLocal _ _ hv := runsAlike_modifyScopes fun _ hscopes =>
    forall_putInnermost (V := fun v => v.isPlain) hscopes hv
  loopValue _ := rfl

/-! ## Evaluations -/

theorem looksAt_runsAlike :
    LooksAt (fun τ => ∃ data, τ = σ.withData data) (RunsAlike σ data data') := by
  intro α x y hsame hy s hs
  rw [hsame _ ⟨data', rfl⟩, hsame _ ⟨data, rfl⟩]
  exact hy s hs

/-- An outcome of the host supplies the value it ends well with. -/
theorem supplies_ofOutcome {o : Outcome Value} (ho : ∀ v, o = .ok v → v.isPlain) :
    Supplies (RunsAlike σ data data') (fun v => v.isPlain) only (ofOutcome o) := by
  cases o with
  | ok v => exact .pureOne (ho v rfl)
  | error e => exact ⟨fun _ => runsAlike_throw e⟩

/-- What is no text stands for nothing, and may not even be a name. -/
theorem runFrom_findNamed {v : Value} (hv : ∀ name, v ≠ .str name) (τ : Settings)
    (hτ : ∃ data, τ = σ.withData data) (s : RenderState) :
    (findNamed v).runFrom τ s =
      (match v.unhashable? with
        | some type => throw (.unhashable type)
        | none => undefined v : Render Value).runFrom τ s := by
  obtain ⟨data, rfl⟩ := hτ
  have hlayers : layers.runFrom (σ.withData data) s = (.ok (s.scopes ++ [data]), s) := rfl
  unfold findNamed
  split
  · next name => exact absurd rfl (hv name)
  · rw [runFrom_bind, hlayers]
    cases s.scopes <;> cases v.unhashable? <;> rfl

/-- What is looked up inside a plain value is plain. -/
theorem hostClosed_runsAlike (hlax : σ.strictVariables = false) :
    HostClosed (RunsAlike σ data data') fun v => v.isPlain where
  toValueClosed := Value.valueClosed_isPlain
  unwrap {v} hv := by
    cases v with
    | proxy => cases hv
    | _ => exact hv
  settle {v} hv := by
    rw [settle_of_isPlain hv]
    exact (stateClosed_runsAlike hlax).suppliesBound hv
  resolve {v} hv key := by
    have hclosed : StateClosed (RunsAlike σ data data') := stateClosed_runsAlike hlax
    unfold resolve
    split
    · cases hv
    · cases hv
    · next id =>
      refine (hclosed.supplies hclosed.loops).bind fun loops _ => ?_
      dsimp only
      split
      · next answer hanswer =>
        refine .pureOne ?_
        split at hanswer
        · exact Value.valueClosed_isPlain.answer hanswer
        · cases hanswer
      · exact hclosed.suppliesLooks (fun _ => rfl) fun _ =>
          hclosed.suppliesMissing Value.valueClosed_isPlain _ _
    · exact .pureOne rfl

section

variable (hlax : σ.strictVariables = false) (hagree : Agree known data data')

include hlax hagree

/-- A known name stands for the same plain value in both mappings. -/
theorem supplies_find {name : String} (hname : known name) :
    Supplies (RunsAlike σ data data') (fun v => v.isPlain) only (find name) := by
  refine ⟨fun {β f} hf s hs => ?_⟩
  rw [runFrom_bind, runFrom_bind, runFrom_find hlax hs hagree.plain, runFrom_find hlax hs hagree.plain',
    ← valueOf_congr (hagree.same hname)]
  exact hf (valueOf s data name)
    (List.forall_mem_singleton.mpr (isPlain_valueOf hs hagree.plain name)) _ hs

theorem supplies_findNamed {v : Value} (hv : ∀ name, v = .str name → known name) :
    Supplies (RunsAlike σ data data') (fun v => v.isPlain) only (findNamed v) := by
  have hclosed : StateClosed (RunsAlike σ data data') := stateClosed_runsAlike hlax
  cases v with
  | str name => exact supplies_find hlax hagree (hv name rfl)
  | _ =>
    refine .congr looksAt_runsAlike (runFrom_findNamed fun _ hstr => nomatch hstr) ?_
    split
    · exact hclosed.suppliesThrow (Failure.isRefusal_host _)
    · exact hclosed.suppliesUndefined Value.valueClosed_isPlain _

/-- An expression whose paths start from known names. -/
theorem supplies_evaluate {e : Expr} (he : e.Known known) :
    Supplies (RunsAlike σ data data') (fun v => v.isPlain) only e.evaluate := by
  refine (stateClosed_runsAlike hlax).suppliesEvaluate (hostClosed_runsAlike hlax)
    (fun v _ key => runsAlike_ask .path v key) e fun e' he' => ?_
  cases e' with
  | value v => exact he.literal v he'
  | lookup root path =>
    obtain ⟨name, rfl, hname⟩ := he.root root path he'
    exact supplies_findNamed hlax hagree hname
  | range => trivial

end

/-! ## Filters -/

/-- The failure of a step that supplies a value may be given the name of a filter. -/
theorem supplies_blame {x : Render Value} (name : String)
    (hx : Supplies (RunsAlike σ data data') (fun v => v.isPlain) only x) :
    Supplies (RunsAlike σ data data') (fun v => v.isPlain) only
      (tryCatch x fun e => throw (Filter.blame name e)) := by
  refine ⟨fun {β f} hf s hs => ?_⟩
  obtain ⟨hsame, hplain⟩ := hx.run runsAlike_pure s hs
  have hthen := hx.goOn hf s hs
  rw [runFrom_bind, runFrom_bind, hsame] at hthen
  rw [runFrom_bind, runFrom_bind, runFrom_tryCatch, runFrom_tryCatch, hsame]
  generalize x.runFrom (σ.withData data) s = out at hthen hplain
  match out with
  | (.ok v, t) => exact hthen
  | (.error e, t) => exact ⟨rfl, hplain⟩

theorem supplies_invoke (hlax : σ.strictVariables = false)
    (hfilters : ∀ name f, σ.filters.get? name = some f → f.KeepsPlain) (name : String) (v : Value)
    (args : List Value) (kwargs : Named Value) (hv : v.isPlain) (hargs : ∀ a ∈ args, a.isPlain)
    (hkwargs : ∀ entry ∈ kwargs, entry.2.isPlain) :
    Supplies (RunsAlike σ data data') (fun v => v.isPlain) only (Filter.invoke name v args kwargs) := by
  have hclosed : StateClosed (RunsAlike σ data data') := stateClosed_runsAlike hlax
  refine hclosed.suppliesInvoke looksAt_runsAlike (σ.filters.get? name) ?_ hv fun f hget => ?_
  · rintro _ ⟨data, rfl⟩
    rfl
  · have hkeeps := hfilters name f hget
    refine supplies_blame name (hclosed.suppliesFilter Value.valueClosed_isPlain ?_ hv hargs hkwargs)
    cases f with
    | builtin f =>
      exact fun key item hitem => hclosed.suppliesProperty (hostClosed_runsAlike hlax) hitem key
        (runsAlike_ask .item item key)
    | host f =>
      cases f with
      | lookup => cases hkeeps
      | custom g =>
        refine fun v args kwargs hv hargs hkwargs => supplies_ofOutcome fun result hresult => ?_
        exact hkeeps v args kwargs result hv hargs hkwargs hresult
      | failing failure => exact runsAlike_throw failure
      | render => exact runsAlike_ofOutcome
      | _ => exact hkeeps

/-! ## Nodes -/

section

variable (hlax : σ.strictVariables = false)
  (hfilters : ∀ name f, σ.filters.get? name = some f → f.KeepsPlain) (hagree : Agree known data data')

include hlax hfilters hagree

theorem carries_runsAlike {node : Node} (hknown : ∀ e ∈ node.exprs, e.Known known) :
    Carries (RunsAlike σ data data') (fun v => v.isPlain) node where
  own := by
    have hexprs : ∀ e ∈ node.exprs,
        Supplies (RunsAlike σ data data') (fun v => v.isPlain) only e.evaluate :=
      fun e he => supplies_evaluate hlax hagree (hknown e he)
    have hclosed : StateClosed (RunsAlike σ data data') := stateClosed_runsAlike hlax
    refine hclosed.own hexprs (fun p hp => suppliesPipeline (supplies_invoke hlax hfilters) p hp)
      (hclosed.filterGlobally runsAlike_throw)
      (fun v start stop hv => Value.isPlain_slice hv start stop) (fun _ => rfl)
      (fun _ _ v hv => runsAlike_modifyScopes fun _ hscopes =>
        forall_putOutermost (V := fun v => v.isPlain) hscopes hv)
      (fun _ => runsAlike_of_same (fun _ => rfl) fun _ => rfl) fun header hheader => ?_
    cases node with
    | loop tag header' body otherwise =>
      cases hheader
      exact hclosed.suppliesItems (fun v start stop hv => Value.isPlain_slice hv start stop) hexprs
        (fun v => runsAlike_of_same (fun _ => rfl) fun _ => rfl)
        fun _ => runsAlike_of_same (fun _ => rfl) fun _ => rfl
    | _ => cases hheader
  placed hnode := by
    intro s hs
    obtain ⟨hsame, hplain⟩ := hnode s hs
    rw [placed_eq_guarded, runFrom_guarded, runFrom_guarded, hsame]
    generalize node.render.runFrom (σ.withData data) s = out at hplain
    match out with
    | (.ok r, t) => exact ⟨rfl, hplain⟩
    | (.error e, t) =>
      dsimp only
      split
      · exact ⟨rfl, hplain⟩
      · exact ⟨rfl, hplain⟩

/-- **A render that starts its paths from known names is the same with both mappings.** -/
theorem run_of_agree {body : Body}
    (hknown : ∀ m ∈ Node.partsOfBody body, ∀ e ∈ m.exprs, e.Known known) (counts : Counts)
    (registers : Registers) :
    Environment.run (σ.withData data) counts registers body =
      Environment.run (σ.withData data') counts registers body := by
  have hstart : RenderState.IsPlain { registers, counts } :=
    List.forall_mem_singleton.mpr fun _ hentry => nomatch hentry
  have hbody := (treeClosed_runsAlike hlax).body body fun m hm =>
    carries_runsAlike hlax hfilters hagree (hknown m hm)
  exact run_congr rfl rfl rfl (hbody _ hstart).1.symm

end

end Render

end Stencil
