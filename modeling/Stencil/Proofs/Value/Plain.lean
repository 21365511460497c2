import Stencil.Proofs.Value.Members

/-!
# Plain values

A plain value holds no function, stand-in or drop of the host at any depth: nothing in it looks anything
up. The operations on values keep this (`valueClosed_isPlain`).
-/

namespace Stencil

namespace Value

mutual

/-- Whether there is no function, stand-in or drop of the host in a value. -/
def isPlain (v : Value) : Bool :=
  match v with
  | .function .. | .proxy .. | .drop .. => false
  | .list xs | .tuple xs => areAllPlain xs
  | .map es => areEntriesPlain es
  | .nil | .bool _ | .int _ | .float _ | .str _ | .range _ | .literal _ | .sealed .. | .version _
  | .loop _ => true
termination_by structural v

/-- Whether all values are plain. -/
def areAllPlain (xs : List Value) : Bool :=
  match xs with
  | [] => true
  | x :: xs => isPlain x && areAllPlain xs
termination_by structural xs

/-- Whether all keys and values are plain. -/
def areEntriesPlain (es : List (Value × Value)) : Bool :=
  match es with
  | [] => true
  | (k, v) :: es => isPlain k && isPlain v && areEntriesPlain es
termination_by structural es

end

theorem areAllPlain_iff {xs : List Value} : areAllPlain xs ↔ ∀ x ∈ xs, x.isPlain := by
  induction xs with
  | nil => simp [areAllPlain]
  | cons x rest ih => simp [areAllPlain, ih]

theorem areEntriesPlain_iff {es : List (Value × Value)} :
    areEntriesPlain es ↔ ∀ e ∈ es, e.1.isPlain ∧ e.2.isPlain := by
  induction es with
  | nil => simp [areEntriesPlain]
  | cons e rest ih => simp [areEntriesPlain, ih]

theorem valueClosed_isPlain : ValueClosed fun v => v.isPlain where
  nil := rfl
  bool _ := rfl
  int _ := rfl
  float _ := rfl
  str _ := rfl
  range _ := rfl
  loop _ := rfl
  list := areAllPlain_iff.mpr
  items {v} hv := by
    cases v with
    | nil => exact fun _ hx => nomatch hx
    | list xs => exact areAllPlain_iff.mp hv
    | tuple xs => exact areAllPlain_iff.mp hv
    | range r =>
      intro x hx
      obtain ⟨i, -, rfl⟩ := List.mem_map.mp hx
      rfl
    | _ => exact List.forall_mem_singleton.mpr hv
  entries := areEntriesPlain_iff.mp

/-- A drop is not plain, so that a slice of a plain value holds plain values. -/
theorem isPlain_slice {v : Value} (hv : v.isPlain) (start : Int) (stop : Option Int) :
    ∀ x ∈ v.slice start stop, x.isPlain :=
  valueClosed_isPlain.slice hv (fun _ _ hdrop => by rw [hdrop] at hv; cases hv) start stop

end Value

end Stencil
