import Mathlib
import Stencil.Value.Number

/-!
# The order of numbers

Whole numbers and floating-point numbers are compared exactly, without rounding: each number that is not a
not-a-number stands for a rational number or one of the two infinities (`Numeric.value?`), and numbers
compare just as what they stand for (`Numeric.compare?_eq`). Being equal is therefore symmetric and
transitive, and swapping two numbers swaps how they compare.
-/

namespace Stencil

/-- Rational numbers between two infinities. -/
abbrev Extended := WithBot (WithTop ℚ)

namespace Binary64

/-- The rational number that a finite number stands for. -/
def rational (negative : Bool) (mantissa : Nat) (exponent : Int) : ℚ :=
  signed negative mantissa * 2 ^ exponent

/-- What a floating-point number stands for; nothing if it is not a number. -/
def value? : Binary64 → Option Extended
  | .nan _ => none
  | .infinite negative => some (if negative then ⊥ else ((⊤ : WithTop ℚ) : Extended))
  | .finite s m e => some ((rational s m e : WithTop ℚ) : Extended)

theorem exactly_value? (n : Int) : (exactly n).value? = some (((n : ℚ) : WithTop ℚ) : Extended) := by
  have hsigned : signed (decide (n < 0)) n.natAbs = n := by
    unfold signed
    split
    · rename_i hneg
      have := of_decide_eq_true hneg
      omega
    · rename_i hpos
      have := of_decide_eq_false (Bool.not_eq_true _ ▸ hpos)
      omega
  simp only [exactly, value?, rational, hsigned, zpow_zero, mul_one]

/-- A number written with a smaller exponent stands for the same. -/
theorem rational_eq (s : Bool) (m : Nat) {e low : Int} (h : low ≤ e) :
    rational s m e = (signed s (m * Nat.pow 2 (e - low).toNat) : ℚ) * 2 ^ low := by
  have hexponent : (2 : ℚ) ^ e = 2 ^ (e - low).toNat * 2 ^ low := by
    rw [← zpow_natCast, Int.toNat_of_nonneg (by omega), ← zpow_add₀ two_ne_zero, Int.sub_add_cancel]
  rw [rational, hexponent]
  have hpow : ((Nat.pow 2 (e - low).toNat : Nat) : ℚ) = 2 ^ (e - low).toNat := by
    rw [Nat.pow_eq, Nat.cast_pow, Nat.cast_ofNat]
  cases s <;> simp only [signed, Bool.false_eq_true, if_false, if_true] <;> push_cast <;> rw [hpow] <;>
    ring

/-- A multiple of a power of two, as an extended rational number. -/
theorem strictMono_multiples (low : Int) :
    StrictMono fun n : ℤ => ((((n : ℚ) * 2 ^ low : ℚ) : WithTop ℚ) : Extended) := by
  intro a b hab
  have hpow : (0 : ℚ) < 2 ^ low := zpow_pos two_pos low
  exact WithBot.coe_lt_coe.mpr (WithTop.coe_lt_coe.mpr
    (mul_lt_mul_of_pos_right (Int.cast_lt.mpr hab) hpow))

/-- **Floating-point numbers compare as what they stand for.** Two finite ones are multiples of the same
power of two. -/
theorem compare?_eq (x y : Binary64) : x.compare? y = Option.map₂ compare x.value? y.value? := by
  have hbot (q : WithTop ℚ) : (⊥ : Extended) < q := WithBot.bot_lt_coe q
  have htop (q : ℚ) : ((q : WithTop ℚ) : Extended) < (⊤ : WithTop ℚ) :=
    WithBot.coe_lt_coe.mpr (WithTop.coe_lt_top q)
  cases x with
  | nan => rfl
  | infinite s =>
    cases y with
    | nan => rfl
    | infinite t =>
      cases s <;> cases t
      · exact congrArg some (compare_eq_iff_eq.mpr rfl).symm
      · exact congrArg some (compare_gt_iff_gt.mpr (hbot ⊤)).symm
      · exact congrArg some (compare_lt_iff_lt.mpr (hbot ⊤)).symm
      · exact congrArg some (compare_eq_iff_eq.mpr rfl).symm
    | finite t n f =>
      cases s
      · exact congrArg some (compare_gt_iff_gt.mpr (htop _)).symm
      · exact congrArg some (compare_lt_iff_lt.mpr (hbot _)).symm
  | finite s m e =>
    cases y with
    | nan => rfl
    | infinite t =>
      cases t
      · exact congrArg some (compare_lt_iff_lt.mpr (htop _)).symm
      · exact congrArg some (compare_gt_iff_gt.mpr (hbot _)).symm
    | finite t n f =>
      have hcompare := (strictMono_multiples (min e f)).cmp_map_eq
        (signed s (m * Nat.pow 2 (e - min e f).toNat)) (signed t (n * Nat.pow 2 (f - min e f).toNat))
      simp only [cmp_eq_compare] at hcompare
      simp only [compare?, value?, rational_eq s m (min_le_left e f), rational_eq t n (min_le_right e f),
        Option.map₂_some_some, hcompare]

end Binary64

namespace Numeric

/-- What a number stands for; nothing if it is not a number. -/
def value? : Numeric → Option Extended
  | .int n => some (((n : ℚ) : WithTop ℚ) : Extended)
  | .float x => x.value?

/-- **Numbers compare as what they stand for.** -/
theorem compare?_eq (a b : Numeric) : a.compare? b = Option.map₂ compare a.value? b.value? := by
  cases a with
  | int m =>
    cases b with
    | int n =>
      have hmono : StrictMono fun n : ℤ => (((n : ℚ) : WithTop ℚ) : Extended) := fun _ _ hlt =>
        WithBot.coe_lt_coe.mpr (WithTop.coe_lt_coe.mpr (Int.cast_lt.mpr hlt))
      have hcompare := hmono.cmp_map_eq m n
      rw [cmp_eq_compare, cmp_eq_compare] at hcompare
      exact congrArg some hcompare.symm
    | float y => rw [compare?, Binary64.compare?_eq, Binary64.exactly_value?, value?, value?]
  | float x =>
    cases b with
    | int n => rw [compare?, Binary64.compare?_eq, Binary64.exactly_value?, value?, value?]
    | float y => exact Binary64.compare?_eq x y

/-- Numbers are equal that stand for the same. -/
theorem same_iff {a b : Numeric} : a.same b = true ↔ ∃ x, a.value? = some x ∧ b.value? = some x := by
  rw [same, beq_iff_eq, compare?_eq]
  constructor
  · intro hcompare
    obtain ⟨x, y, hx, hy, heq⟩ := Option.map₂_eq_some_iff.mp hcompare
    obtain rfl := compare_eq_iff_eq.mp heq
    exact ⟨x, hx, hy⟩
  · rintro ⟨x, hx, hy⟩
    rw [hx, hy, Option.map₂_some_some, compare_eq_iff_eq.mpr rfl]

theorem same_comm (a b : Numeric) : a.same b = b.same a := by
  rw [Bool.eq_iff_iff, same_iff, same_iff]
  exact exists_congr fun _ => and_comm

theorem same_trans {a b c : Numeric} (hab : a.same b = true) (hbc : b.same c = true) :
    a.same c = true := by
  obtain ⟨x, ha, hb⟩ := same_iff.mp hab
  obtain ⟨y, hb', hc⟩ := same_iff.mp hbc
  obtain rfl := Option.some.inj (hb.symm.trans hb')
  exact same_iff.mpr ⟨x, ha, hc⟩

end Numeric

end Stencil
