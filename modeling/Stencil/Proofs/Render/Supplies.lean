import Stencil.Proofs.Render.Run

/-!
# Steps that supply values

Some steps of a render may only be gone on with because of the values they give: a scope may hold values
of some kind only, or a filter may be applied to such values only. A step supplies values that satisfy `V`
when a property `P` of steps holds of it together with whatever goes on with such values
(`Supplies P V values step`, where `values` are the values inside what the step gives).

Putting steps together keeps this, whatever `P` and `V` are. Where `P` only looks at runs with some settings, a
step supplies what another one does that runs in the same way with these (`Supplies.congr`).
-/

namespace Stencil

namespace Render

variable {α β : Type} {P : (α : Type) → Render α → Prop} {V : Value → Prop}

/-- A step gives values that satisfy `V`: it can be gone on with if it can be from all such values. -/
structure Supplies (P : (α : Type) → Render α → Prop) (V : Value → Prop) (values : α → List Value)
    (step : Render α) : Prop where
  goOn {β : Type} {f : α → Render β} :
    (∀ a, (∀ v ∈ values a, V v) → P β (f a)) → P β (step >>= f)

/-- Whether a step has the property is decided by its runs with some settings. -/
def LooksAt (S : Settings → Prop) (P : (α : Type) → Render α → Prop) : Prop :=
  ∀ {α : Type} {x y : Render α}, (∀ σ, S σ → ∀ s, x.runFrom σ s = y.runFrom σ s) → P α y → P α x

/-- The values inside a value that is looked at as it is. -/
abbrev only (v : Value) : List Value := [v]

namespace Supplies

variable {values : α → List Value} {values' : β → List Value} {x : Render α} {f : α → Render β}

theorem pure {a : α} (ha : ∀ v ∈ values a, V v) : Supplies P V values (Pure.pure a) := by
  refine ⟨fun hg => ?_⟩
  rw [pure_bind]
  exact hg a ha

theorem bind (hx : Supplies P V values x)
    (hf : ∀ a, (∀ v ∈ values a, V v) → Supplies P V values' (f a)) :
    Supplies P V values' (x >>= f) := by
  refine ⟨fun hg => ?_⟩
  rw [bind_assoc]
  exact hx.goOn fun a ha => (hf a ha).goOn hg

/-- A single value is gone on with. -/
theorem bindOne {x : Render Value} {f : Value → Render β} (hx : Supplies P V only x)
    (hf : ∀ v, V v → Supplies P V values' (f v)) : Supplies P V values' (x >>= f) :=
  hx.bind fun v hv => hf v (hv v List.mem_cons_self)

theorem pureOne {v : Value} (hv : V v) : Supplies P V only (Pure.pure v) :=
  .pure fun _ hw => List.mem_singleton.mp hw ▸ hv

theorem pureSome {v : Value} (hv : V v) : Supplies P V Option.toList (Pure.pure (some v)) :=
  .pure fun _ hw => List.mem_singleton.mp hw ▸ hv

theorem pureNone : Supplies P V Option.toList (Pure.pure none) := .pure fun _ hw => nomatch hw

/-- The property holds of the step itself. -/
theorem run (hpure : ∀ a : α, P α (Pure.pure a)) (hx : Supplies P V values x) : P α x := by
  rw [← bind_pure x]
  exact hx.goOn fun a _ => hpure a

theorem congr {S : Settings → Prop} (hP : LooksAt S P) {y : Render α}
    (hsame : ∀ σ, S σ → ∀ s, x.runFrom σ s = y.runFrom σ s) (hy : Supplies P V values y) :
    Supplies P V values x := by
  refine ⟨fun hf => hP (fun σ hσ s => ?_) (hy.goOn hf)⟩
  rw [runFrom_bind, runFrom_bind, hsame σ hσ s]

theorem mapM {xs : List α} (hf : ∀ a ∈ xs, Supplies P V values' (f a)) :
    Supplies P V (fun bs => bs.flatMap values') (xs.mapM f) := by
  induction xs with
  | nil => exact .pure fun _ hv => nomatch hv
  | cons a rest ih =>
    obtain ⟨ha, hrest⟩ := List.forall_mem_cons.mp hf
    rw [List.mapM_cons]
    refine ha.bind fun b hb => (ih hrest).bind fun bs hbs => .pure fun v hv => ?_
    rw [List.flatMap_cons, List.mem_append] at hv
    exact hv.elim (hb v) (hbs v)

theorem foldlM {f : β → α → Render β} {xs : List α}
    (hf : ∀ b, ∀ a ∈ xs, (∀ v ∈ values' b, V v) → Supplies P V values' (f b a)) {b : β}
    (hb : ∀ v ∈ values' b, V v) : Supplies P V values' (xs.foldlM f b) := by
  induction xs generalizing b with
  | nil => exact .pure hb
  | cons a rest ih =>
    rw [List.foldlM_cons]
    exact (hf b a List.mem_cons_self hb).bind fun c hc =>
      ih (fun c a ha => hf c a (List.mem_cons_of_mem _ ha)) hc

end Supplies

end Render

end Stencil
