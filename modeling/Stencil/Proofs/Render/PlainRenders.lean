import Stencil.Proofs.Render.Alike
import Stencil.Proofs.Render.Kept
import Stencil.Proofs.Tree.Literals

/-!
# Over plain data, what is evaluated is plain

Where the data of a render, its variables and the literals of its template are plain, so are the values that
are evaluated: those of pipelines, and the items that loops and tables go through. The filters of the host
give plain values for plain ones, and may look variables up.

* `StaysPlain`: a step leaves plain variables. What supplies plain values, for all such steps to go on with,
  gives plain values when it is run (`isPlain_of_supplies`).
-/

namespace Stencil

/-- The data of a render are plain. Its filters give plain values for plain ones, or look variables up. -/
structure Settings.IsPlain (σ : Settings) : Prop where
  environments : ∀ scope ∈ σ.environments, Scope.IsPlain scope
  filters : ∀ name f, σ.filters.get? name = some f → f = .host .lookup ∨ f.KeepsPlain

namespace Render

variable {α β : Type} {σ : Settings} {s t : RenderState}

/-! ## Plain variables -/

/-- Under these settings, the step leaves plain variables where they were plain. -/
def StaysPlain (σ : Settings) : (α : Type) → Render α → Prop :=
  Keeps fun τ s t => τ = σ → s.IsPlain → t.IsPlain

theorem scopeRelation_plain (σ : Settings) :
    ScopeRelation fun τ s t => τ = σ → s.IsPlain → t.IsPlain where
  same hscopes _ hs := by
    unfold RenderState.IsPlain
    rw [hscopes]
    exact hs
  trans hst htu hτ hs := htu hτ (hst hτ hs)

theorem stateClosed_staysPlain (σ : Settings) : StateClosed (StaysPlain σ) :=
  (scopeRelation_plain σ).stateClosed

/-- Binds these values and nothing else. -/
def bindOnly (vs : List Value) : Render Unit :=
  modify fun s => { s with scopes := [vs.map fun v => ("", v)] }

theorem staysPlain_bindOnly {vs : List Value} (hvs : ∀ v ∈ vs, v.isPlain) :
    StaysPlain σ Unit (bindOnly vs) := by
  intro τ s _ _
  refine List.forall_mem_singleton.mpr fun entry hentry => ?_
  obtain ⟨v, hv, rfl⟩ := List.mem_map.mp hentry
  exact hvs v hv

/-- The step could be gone on with by binding the values, which leaves plain variables only if they are
plain. -/
theorem isPlain_of_supplies {values : α → List Value} {x : Render α} {a : α}
    (hx : Supplies (StaysPlain σ) (fun v => v.isPlain) values x) (hs : s.IsPlain)
    (hrun : x.runFrom σ s = (.ok a, t)) : ∀ v ∈ values a, v.isPlain := by
  have hbound := hx.goOn (f := fun a => bindOnly (values a)) (fun _ ha => staysPlain_bindOnly ha) σ s rfl hs
  rw [runFrom_bind, hrun] at hbound
  intro v hv
  exact hbound _ List.mem_cons_self ("", v) (List.mem_map_of_mem hv)

/-- Nothing inside a plain value is a host object that could give another one. -/
theorem hostValues_isPlain {P : (α : Type) → Render α → Prop} : HostValues P fun v => v.isPlain where
  toValueClosed := Value.valueClosed_isPlain
  proxied hv := nomatch hv
  result hv := nomatch hv
  failing hv := nomatch hv
  method hv := nomatch hv
  property hv := nomatch hv
  member hv := nomatch hv

theorem looksAt_staysPlain : LooksAt (· = σ) (StaysPlain σ) := by
  intro α x y hsame hy τ s hτ hs
  subst hτ
  rw [hsame τ rfl]
  exact hy τ s rfl hs

section

variable (hσ : σ.IsPlain)

include hσ

/-- Everything that names are looked up in is plain. -/
theorem plain_layers : Supplies (StaysPlain σ) (fun v => v.isPlain) boundValues layers := by
  refine ⟨fun {β f} hf τ s hτ hs => ?_⟩
  have hlayers : layers.runFrom τ s = (.ok (s.scopes ++ τ.environments), s) := rfl
  rw [runFrom_bind, hlayers]
  refine hf _ (fun v hv => ?_) τ s hτ hs
  obtain ⟨scope, hscope, hv⟩ := List.mem_flatMap.mp hv
  obtain ⟨entry, hentry, rfl⟩ := List.mem_map.mp hv
  subst hτ
  exact (List.mem_append.mp hscope).elim (fun h => hs scope h entry hentry)
    fun h => hσ.environments scope h entry hentry

theorem plain_findNamed (name : Value) :
    Supplies (StaysPlain σ) (fun v => v.isPlain) only (findNamed name) :=
  (stateClosed_staysPlain σ).suppliesFindNamed hostValues_isPlain (plain_layers hσ) name

theorem plain_evaluate {e : Expr} (he : e.IsPlain) :
    Supplies (StaysPlain σ) (fun v => v.isPlain) only e.evaluate :=
  (stateClosed_staysPlain σ).suppliesLiterals hostValues_isPlain (plain_layers hσ)
    ((scopeRelation_plain σ).asking.ask .path) he

omit hσ in
theorem plain_blame {x : Render Value} (name : String)
    (hx : Supplies (StaysPlain σ) (fun v => v.isPlain) only x) :
    Supplies (StaysPlain σ) (fun v => v.isPlain) only
      (tryCatch x fun e => throw (Filter.blame name e)) := by
  refine ⟨fun {β f} hf τ s hτ hs => ?_⟩
  have hstep := hx.run (stateClosed_staysPlain σ).pure τ s hτ hs
  have hthen := hx.goOn hf τ s hτ hs
  rw [runFrom_bind] at hthen ⊢
  rw [runFrom_tryCatch]
  generalize x.runFrom τ s = out at hthen hstep
  match out with
  | (.ok v, t) => exact hthen
  | (.error e, t) => exact hstep

theorem plain_invoke (name : String) (v : Value) (args : List Value) (kwargs : Named Value)
    (hv : v.isPlain) (hargs : ∀ a ∈ args, a.isPlain) (hkwargs : ∀ entry ∈ kwargs, entry.2.isPlain) :
    Supplies (StaysPlain σ) (fun v => v.isPlain) only (Filter.invoke name v args kwargs) := by
  have hclosed := stateClosed_staysPlain σ
  have hasking := (scopeRelation_plain σ).asking
  refine hclosed.suppliesInvoke looksAt_staysPlain (σ.filters.get? name) (fun _ hτ => hτ ▸ rfl) hv
    fun f hget => plain_blame name (hclosed.suppliesFilter Value.valueClosed_isPlain ?_ hv hargs hkwargs)
  rcases hσ.filters name f hget with rfl | hkeeps
  · exact fun v _ => plain_findNamed hσ v
  · cases f with
    | builtin f =>
      exact fun key item hitem => hclosed.suppliesProperty
        (hclosed.hostClosed hostValues_isPlain (plain_layers hσ)) hitem key (hasking.ask .item item key)
    | host f =>
      cases f with
      | lookup => cases hkeeps
      | custom g =>
        refine fun v args kwargs hv hargs hkwargs => ?_
        cases hresult : g v args kwargs with
        | ok result => exact .pureOne (hkeeps v args kwargs result hv hargs hkwargs hresult)
        | error e => exact ⟨fun _ => hasking.raise e⟩
      | failing failure => exact hasking.raise failure
      | render => exact hasking.outcome
      | _ => exact hkeeps

/-! ## Values that nodes use -/

/-- The value of a pipeline is plain. -/
theorem isPlain_of_pipeline {p : Pipeline} {v : Value} (hplain : ∀ e ∈ p.exprs, e.IsPlain)
    (hs : s.IsPlain) (hrun : p.evaluate.runFrom σ s = (.ok v, t)) : v.isPlain :=
  isPlain_of_supplies (suppliesPipeline (plain_invoke hσ) p fun e he => plain_evaluate hσ (hplain e he))
    hs hrun v List.mem_cons_self

/-- So are the items of a loop. -/
theorem isPlain_of_itemsOf {header : LoopHeader} {items : List Value}
    (hplain : ∀ e ∈ header.exprs, e.IsPlain) (hs : s.IsPlain)
    (hrun : header.itemsOf.runFrom σ s = (.ok items, t)) : ∀ item ∈ items, item.isPlain :=
  isPlain_of_supplies ((stateClosed_staysPlain σ).suppliesItems
    (fun _ start stop hv => Value.isPlain_slice hv start stop)
    (fun e he => plain_evaluate hσ (hplain e he)) (scopeRelation_plain σ).registerClosed.visit
    fun _ => (scopeRelation_plain σ).registerClosed.registers) hs hrun

/-- And those of a table. -/
theorem isPlain_of_opened {header : TableHeader} {opened : Option (Nat × List Value)}
    (hplain : ∀ e ∈ header.exprs, e.IsPlain) (hs : s.IsPlain)
    (hrun : header.opened.runFrom σ s = (.ok opened, t)) : ∀ item ∈ cellsOf opened, item.isPlain :=
  isPlain_of_supplies ((stateClosed_staysPlain σ).suppliesCells
    (fun _ start stop hv => Value.isPlain_slice hv start stop)
    fun e he => plain_evaluate hσ (hplain e he)) hs hrun

end

end Render

end Stencil
