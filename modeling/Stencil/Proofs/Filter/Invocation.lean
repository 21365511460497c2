import Stencil.Proofs.Fallible
import Stencil.Proofs.Render.Run

/-!
# Filters and the state of a render

A registered filter ends as its function does, what it refuses being blamed on it (`runFrom_invoke`), and a
built-in one is applied to its bound arguments (`runFrom_apply_builtin`), which are read as texts and numbers
without a trace (`runFrom_charsOf`, `runFrom_numberOf`, `runFrom_intOf`). An item that is no host object is asked
for a property without a trace: it gives what it holds under the key (`runFrom_property`).
-/

namespace Stencil

open Render

variable {σ : Settings} {s : RenderState}

/-- Steps that leave the state as it is may be taken one after another. -/
theorem Render.runFrom_mapM {α β : Type} {f : α → Render β} {g : α → Outcome β} {xs : List α}
    (hsteps : ∀ x ∈ xs, (f x).runFrom σ s = (g x, s)) : (xs.mapM f).runFrom σ s = (xs.mapM g, s) := by
  induction xs with
  | nil => rfl
  | cons x rest ih =>
    obtain ⟨hx, hrest⟩ := List.forall_mem_cons.mp hsteps
    rw [List.mapM_cons, List.mapM_cons, runFrom_bind, hx]
    cases g x with
    | error e => rfl
    | ok y =>
      dsimp only
      rw [runFrom_bind, ih hrest]
      cases rest.mapM g <;> rfl

theorem mapM_pure {ε α β : Type} (g : α → β) (xs : List α) :
    xs.mapM (fun x => (.ok (g x) : Except ε β)) = .ok (xs.map g) :=
  List.mapM_pure

/-! ## Invoking -/

namespace Filter

variable {name : String} {v : Value} {args vs : List Value} {kwargs : Named Value}

/-- What a filter refuses is blamed on it; the state is the one it leaves. -/
theorem runFrom_invoke {f : Filter} (hnames : kwargs.find? (reservedKeywords.contains ·.1) = none)
    (hfilter : σ.filters.get? name = some f) :
    (invoke name v args kwargs).runFrom σ s =
      (((f.apply v args kwargs).runFrom σ s).1.mapError (blame name),
        ((f.apply v args kwargs).runFrom σ s).2) := by
  unfold invoke
  rw [hnames]
  simp only [runFrom_bind, runFrom_read, hfilter, runFrom_tryCatch]
  generalize (f.apply v args kwargs).runFrom σ s = out
  match out with
  | (.ok w, t) => rfl
  | (.error e, t) => rfl

theorem runFrom_apply_builtin {f : BuiltinFilter}
    (hbind : Parameters.bind f.function f.parameters args kwargs = .ok vs) :
    (apply (.builtin f) v args kwargs).runFrom σ s = (f.apply v vs).runFrom σ s := by
  simp only [apply, hbind, runFrom_bind, runFrom_ofOutcome]

end Filter

/-! ## Arguments as texts and numbers -/

namespace BuiltinFilter

theorem runFrom_charsOf (v : Value) :
    (charsOf v).runFrom σ s = ((v.output s.loops).map String.toList, s) := by
  have hloops : loops.runFrom σ s = (.ok s.loops, s) := rfl
  simp only [charsOf, runFrom_bind, hloops, runFrom_ofOutcome]
  cases v.output s.loops <;> rfl

theorem runFrom_numberOf (v : Value) : (numberOf v).runFrom σ s = (v.toNumber s.loops, s) :=
  runFrom_ofOutcome ..

theorem runFrom_intOf (v : Value) : (intOf v).runFrom σ s = (v.toInt s.loops, s) :=
  runFrom_ofOutcome ..

end BuiltinFilter

/-! ## Properties -/

/-- What a value holds under a key: nil if it is no mapping, or one without that key. -/
def Value.held (item key : Value) : Value :=
  match item with
  | .map es => ((es.find? fun e => matchesItem e.1 key).map (·.2)).getD .nil
  | _ => .nil

theorem Value.entry?_of_hashable {key : Value} (hkey : key.unhashable? = none) (es : List (Value × Value)) :
    entry? es key = .ok ((es.find? fun e => matchesItem e.1 key).map (·.2)) := by
  unfold entry?
  rw [hkey]

theorem BuiltinFilter.runFrom_property {key item : Value} (hkey : key.unhashable? = none)
    (hitem : item.isDrop = false) :
    (property key item).runFrom σ s = (.ok (item.held key), s) := by
  cases item with
  | drop | loop => cases hitem
  | map es =>
    simp only [property, runFrom_bind, runFrom_ofOutcome, Value.entry?_of_hashable hkey]
    rfl
  | _ => rfl

end Stencil
