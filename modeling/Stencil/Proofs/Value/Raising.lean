import Stencil.Filter.Invoke
import Stencil.Proofs.Value.Plain
import Stencil.Proofs.Value.Refusals

/-!
# What host objects raise by themselves

Functions and drops of the host fail with whatever failure the host gives them. `Value.Raises e v` says that
one of them, somewhere in the value, fails with `e`. What values raise only in such ways as a property `Q` of
failures allows (`Value.RaisesOnly Q`) is kept by the operations on values, drops with their slices
included (`valueClosed_raisesOnly`, `RaisesOnly.slice`); plain values raise nothing.

The property is used with one failure left out (`Failure.NotNesting`): that blocks or scopes are nested too
deeply.
-/

namespace Stencil

namespace Failure

/-- Any failure but the error that blocks or scopes are nested too deeply. -/
def NotNesting (e : Failure) : Prop := ∀ error, e = .template error → error.kind ≠ .nesting

theorem notNesting_host (h : HostError) : NotNesting (.host h) := fun _ heq => nomatch heq

theorem notNesting_template {error : TemplateError} (herror : error.kind ≠ .nesting) :
    NotNesting (.template error) := by
  intro error' heq
  cases heq
  exact herror

theorem IsRefusal.notNesting {e : Failure} (he : e.IsRefusal) : e.NotNesting := by
  rcases he with ⟨h, rfl⟩ | ⟨message, rfl⟩
  · exact notNesting_host h
  · exact notNesting_template (by simp [TemplateError.badArgument])

/-- What is recorded for such a failure is no such error either: a failure of the host is recorded as an
internal error. -/
theorem NotNesting.recorded {e : Failure} (he : e.NotNesting) : e.recorded.kind ≠ .nesting := by
  cases e with
  | template error => exact he error rfl
  | host h => simp [Failure.recorded, TemplateError.internal]

theorem NotNesting.blame {e : Failure} (he : e.NotNesting) (name : String) :
    (Filter.blame name e).NotNesting := by
  unfold Filter.blame
  split
  · exact notNesting_template (by simp [TemplateError.badArgument])
  · exact notNesting_template (by simp [TemplateError.badArgument])
  · exact he

end Failure

namespace Value

/-- A function or a drop of the host, somewhere in the value, fails with `e`. -/
inductive Raises (e : Failure) : Value → Prop
  | function {id : Nat} : Raises e (.function id (.failing e))
  | result {id : Nat} {v : Value} (h : Raises e v) : Raises e (.function id (.constant v))
  | member {id : Nat} {d : Drop Value} {name : String} (hmember : (name, .failing e) ∈ d.members) :
    Raises e (.drop id d)
  | method {id : Nat} {d : Drop Value} {name : String} {v : Value}
    (hmember : (name, .method v) ∈ d.members) (h : Raises e v) : Raises e (.drop id d)
  | property {id : Nat} {d : Drop Value} {name : String} {v : Value}
    (hmember : (name, .property v) ∈ d.members) (h : Raises e v) : Raises e (.drop id d)
  | item {id : Nat} {d : Drop Value} {xs : List Value} {x : Value} (hitems : d.items = some xs)
    (hx : x ∈ xs) (h : Raises e x) : Raises e (.drop id d)
  | slice {id : Nat} {d : Drop Value} {xs : List Value} {x : Value} (hslices : d.slices = some xs)
    (hx : x ∈ xs) (h : Raises e x) : Raises e (.drop id d)
  | list {xs : List Value} {x : Value} (hx : x ∈ xs) (h : Raises e x) : Raises e (.list xs)
  | tuple {xs : List Value} {x : Value} (hx : x ∈ xs) (h : Raises e x) : Raises e (.tuple xs)
  | key {es : List (Value × Value)} {entry : Value × Value} (hentry : entry ∈ es)
    (h : Raises e entry.1) : Raises e (.map es)
  | entry {es : List (Value × Value)} {entry : Value × Value} (hentry : entry ∈ es)
    (h : Raises e entry.2) : Raises e (.map es)
  | proxy {id : Nat} {v : Value} (h : Raises e v) : Raises e (.proxy id v)

/-- Functions and drops in the value fail in no other ways. -/
def RaisesOnly (Q : Failure → Prop) (v : Value) : Prop := ∀ e, v.Raises e → Q e

variable {Q : Failure → Prop}

theorem valueClosed_raisesOnly (Q : Failure → Prop) : ValueClosed (RaisesOnly Q) where
  nil _ he := nomatch he
  bool _ _ he := nomatch he
  int _ _ he := nomatch he
  float _ _ he := nomatch he
  str _ _ he := nomatch he
  range _ _ he := nomatch he
  loop _ _ he := nomatch he
  list hxs e he := by
    cases he with
    | list hx h => exact hxs _ hx e h
  items {v} hv := by
    cases v with
    | nil => exact fun _ hx => nomatch hx
    | list xs => exact fun x hx e he => hv e (.list hx he)
    | tuple xs => exact fun x hx e he => hv e (.tuple hx he)
    | range r =>
      intro x hx
      obtain ⟨i, -, rfl⟩ := List.mem_map.mp hx
      exact fun _ he => nomatch he
    | _ => exact List.forall_mem_singleton.mpr hv
  entries hes entry hentry :=
    ⟨fun e he => hes e (.key hentry he), fun e he => hes e (.entry hentry he)⟩

/-- A slice holds members of the collection, which for a drop may be those it loads by itself. -/
theorem RaisesOnly.slice {v : Value} (hv : v.RaisesOnly Q) (start : Int) (stop : Option Int) :
    ∀ x ∈ v.slice start stop, x.RaisesOnly Q := by
  cases v with
  | drop id d =>
    have hitems : ∀ x ∈ d.items.getD [], x.RaisesOnly Q := by
      cases h : d.items with
      | none => exact fun _ hx => nomatch hx
      | some xs => exact fun x hx e he => hv e (.item h hx he)
    intro x hx
    unfold Value.slice at hx
    dsimp only at hx
    split at hx
    · next xs hslices =>
      split at hx
      · exact fun e he => hv e (.slice hslices (List.mem_of_mem_drop (List.mem_of_mem_take hx)) he)
      · exact hitems x (mem_window hx)
    · exact hitems x (mem_window hx)
  | _ => exact (valueClosed_raisesOnly Q).slice hv nofun start stop

/-- Nothing in a plain value is called. -/
theorem not_raises_of_isPlain {e : Failure} {v : Value} (hv : v.isPlain) : ¬ v.Raises e := by
  intro he
  induction he with
  | list hx _ ih => exact ih (areAllPlain_iff.mp hv _ hx)
  | tuple hx _ ih => exact ih (areAllPlain_iff.mp hv _ hx)
  | key hentry _ ih => exact ih (areEntriesPlain_iff.mp hv _ hentry).1
  | entry hentry _ ih => exact ih (areEntriesPlain_iff.mp hv _ hentry).2
  | function | result | member | method | property | item | slice | proxy => cases hv

theorem raisesOnly_of_isPlain {v : Value} (hv : v.isPlain) : v.RaisesOnly Q :=
  fun _ he => absurd he (not_raises_of_isPlain hv)

end Value

end Stencil
