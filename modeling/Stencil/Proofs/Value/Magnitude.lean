import Mathlib.Data.Nat.Digits.Defs
import Mathlib.Data.Nat.Log
import Mathlib.Tactic.NormNum
import Mathlib.Tactic.Ring
import Stencil.Value.Convert

/-!
# How large numbers are

A number of few digits is small, and a small number can be written (`exists_intText`). A fraction below ten to
the power 308 has a floating-point number nearest to it (`exists_ofFraction`), which is small as well.
-/

namespace Stencil

open Text

/-! ## Digits -/

namespace Number

/-- The digits of a number, the most significant one first, are those of its decimal expansion. -/
theorem ofDigits_eq (digits : List Nat) : ofDigits digits = Nat.ofDigits 10 digits.reverse := by
  rw [ofDigits, Nat.ofDigits_eq_foldr, List.foldr_reverse]
  simp only [Nat.cast_id, Nat.add_comm]

/-- A number is below the power of ten that its digits are too few for. -/
theorem ofDigits_lt {digits : List Nat} (hdigits : ∀ d ∈ digits, d < 10) :
    ofDigits digits < 10 ^ digits.length := by
  rw [ofDigits_eq, ← List.length_reverse]
  exact Nat.ofDigits_lt_base_pow_length (by decide) fun d hd => hdigits d (List.mem_reverse.mp hd)

end Number

theorem Text.digitValue?_lt {c : Char} {d : Nat} (hdigit : digitValue? c = some d) : d < 10 := by
  unfold digitValue? at hdigit
  dsimp only at hdigit
  split at hdigit
  · split at hdigit
    · next hc =>
      cases hdigit
      simp only [Char.isDigit, Bool.and_eq_true, decide_eq_true_eq] at hc
      have hle : c.val.toNat ≤ 57 := hc.2
      have : c.toNat = c.val.toNat := rfl
      omega
    · cases hdigit
  · obtain ⟨start, hstart, rfl⟩ := Option.map_eq_some_iff.mp hdigit
    have hbounds := Array.find?_some hstart
    simp only [Bool.and_eq_true, decide_eq_true_eq] at hbounds
    omega

/-- A whole number of at most 4300 digits can be written. -/
theorem Value.exists_intText {n : Int} (hn : n.natAbs < 10 ^ Number.maxDigits) :
    ∃ s, intText n = .ok s := by
  have hlength := Nat.toDigits_length 10 n.natAbs Number.maxDigits (by decide) hn
  unfold intText Number.intText?
  dsimp only
  rw [if_neg (Nat.not_lt.mpr hlength)]
  exact ⟨_, rfl⟩

/-! ## Floating-point numbers -/

namespace Binary64

theorem natAbs_signed (negative : Bool) (m : Nat) : (signed negative m).natAbs = m := by
  cases negative <;> simp [signed]

theorem roundQuotient_le (num den : Nat) : roundQuotient num den ≤ num / den + 1 := by
  unfold roundQuotient
  dsimp only
  split
  · omega
  · split
    · omega
    · split <;> omega

/-- How large the whole part of a fraction is, in units of a power of two. -/
theorem div_lt_of_lt_mul {num den bound unit limit : Nat} (hsmall : num < bound * den)
    (hbound : bound ≤ unit * limit) : num / (den * unit) < limit := by
  refine Nat.div_lt_of_lt_mul ?_
  calc num < bound * den := hsmall
    _ ≤ unit * limit * den := Nat.mul_le_mul_right _ hbound
    _ = den * unit * limit := by ring

/-- A fraction below ten to the power 308 has an exponent that a finite number may have. -/
theorem naturalExponent_le {num den : Nat} (hsmall : num < 10 ^ 308 * den) :
    naturalExponent num den ≤ 971 := by
  rcases Nat.eq_zero_or_pos num with rfl | hnum
  · unfold naturalExponent precision
    simp only [Nat.log2_zero]
    split <;> omega
  have hlog : num.log2 ≤ den.log2 + 1024 := by
    refine Nat.lt_succ_iff.mp ((Nat.pow_lt_pow_iff_right (a := 2) (by decide)).mp ?_)
    calc 2 ^ num.log2 ≤ num := Nat.log2_self_le (by omega)
      _ < 10 ^ 308 * den := hsmall
      _ ≤ 2 ^ 1024 * 2 ^ (den.log2 + 1) :=
        Nat.mul_le_mul (by decide +kernel) (Nat.le_of_lt Nat.lt_log2_self)
      _ = 2 ^ (den.log2 + 1024).succ := by rw [← Nat.pow_add]; congr 1; omega
  unfold naturalExponent precision
  dsimp only
  by_cases hlow : (num.log2 : Int) - (den.log2 : Int) - (53 - 1 : Nat) ≤ 971
  · split <;> omega
  · -- with a greater exponent the quotient would not be large enough
    have hguess : (num.log2 : Int) - (den.log2 : Int) - (53 - 1 : Nat) = 972 := by omega
    rw [hguess]
    have hdiv : num / (den * 2 ^ 972) < 2 ^ 52 :=
      div_lt_of_lt_mul hsmall (by decide +kernel)
    rw [if_pos]
    · decide
    · exact hdiv

/-- **A fraction below ten to the power 308 has a number nearest to it**, which is not much larger. -/
theorem exists_ofFraction (negative : Bool) {num den : Nat} (hsmall : num < 10 ^ 308 * den) :
    ∃ m e, ofFraction negative num den = .finite negative m e ∧ m ≤ num * 2 ^ 1074 + 1 ∧ e ≤ 972 := by
  have hexponent := naturalExponent_le hsmall
  unfold ofFraction
  split
  · exact ⟨0, minExponent, rfl, Nat.zero_le _, by decide⟩
  dsimp only
  generalize he : max (naturalExponent num den) minExponent = e
  have hmin : -1074 ≤ e := by rw [← he]; exact le_max_right _ _
  have hmax : e ≤ 971 := by rw [← he]; exact max_le hexponent (by decide)
  -- the numerator is raised when the exponent is below zero, and the denominator otherwise
  have hscaled : (scaleDown num den e).1 ≤ num * 2 ^ 1074 := by
    unfold scaleDown
    split
    · exact Nat.le_mul_of_pos_right num (Nat.pow_pos (by decide))
    · exact Nat.mul_le_mul_left _ (Nat.pow_le_pow_right (by decide) (by omega))
  have hm : roundQuotient (scaleDown num den e).1 (scaleDown num den e).2 ≤ num * 2 ^ 1074 + 1 :=
    (roundQuotient_le _ _).trans (Nat.succ_le_succ ((Nat.div_le_self _ _).trans hscaled))
  split
  · next hfull =>
    rw [beq_iff_eq] at hfull
    rw [hfull] at hm
    split
    · -- the greatest exponent leaves room for the rounding
      next hlimit =>
      obtain rfl : e = 971 := le_antisymm hmax hlimit
      have hdiv : num / (den * 2 ^ 971) < 2 ^ 53 - 1 := div_lt_of_lt_mul hsmall (by decide +kernel)
      have hround := roundQuotient_le num (den * 2 ^ 971)
      have hscale : scaleDown num den 971 = (num, den * 2 ^ 971) := rfl
      rw [hscale] at hfull
      rw [hfull] at hround
      exact absurd hround (Nat.not_le.mpr (Nat.add_lt_of_lt_sub hdiv))
    · exact ⟨_, _, rfl, (Nat.pow_le_pow_right (by decide) (by decide)).trans hm, by omega⟩
  · rw [if_neg (by unfold maxExponent; omega)]
    exact ⟨_, _, rfl, hm, by omega⟩

/-- A whole part is not above what the mantissa is worth. -/
theorem natAbs_truncate_le (negative : Bool) (m : Nat) (e : Int) :
    (truncate negative m e).natAbs ≤ m * 2 ^ e.toNat := by
  unfold truncate
  rw [natAbs_signed]
  split
  · exact Nat.le_refl _
  · exact (Nat.div_le_self _ _).trans (Nat.le_mul_of_pos_right m (Nat.pow_pos (by decide)))

end Binary64

namespace Number

/-- **A decimal with at most 308 digits in front of the point has a number nearest to it.** -/
theorem exists_binaryOfDigits (negative : Bool) {whole part : List Nat} (hwhole : ∀ d ∈ whole, d < 10)
    (hpart : ∀ d ∈ part, d < 10) (hlength : whole.length ≤ 308) :
    ∃ m e, binaryOfDigits negative whole part 0 = .finite negative m e ∧
      m ≤ 10 ^ (whole.length + part.length) * 2 ^ 1074 + 1 ∧ e ≤ 972 := by
  unfold binaryOfDigits
  dsimp only
  generalize hdrop : (whole ++ part).dropWhile (· == 0) = digits
  have hsublist : digits.Sublist (whole ++ part) := hdrop ▸ List.dropWhile_sublist _
  have hcount : digits.length ≤ whole.length + part.length := by
    rw [← List.length_append]
    exact hsublist.length_le
  have hvalue : ofDigits digits < 10 ^ digits.length := ofDigits_lt fun d hd =>
    (List.mem_append.mp (hsublist.subset hd)).elim (hwhole d) (hpart d)
  have hnum : ofDigits digits ≤ 10 ^ (whole.length + part.length) :=
    (Nat.le_of_lt hvalue).trans (Nat.pow_le_pow_right (by decide) hcount)
  have hzero : ∃ m e, Binary64.zeroWith negative = .finite negative m e ∧
      m ≤ 10 ^ (whole.length + part.length) * 2 ^ 1074 + 1 ∧ e ≤ 972 :=
    ⟨0, Binary64.minExponent, rfl, Nat.zero_le _, by decide⟩
  split
  · exact hzero
  split
  · -- so few digits in front of the point are not too large
    omega
  split
  · exact hzero
  split
  · -- without digits behind the point the number is whole
    next hwholeOnly =>
    have hnone : (0 - (part.length : Int)).toNat = 0 := by omega
    have hsmall : ofDigits digits * Nat.pow 10 (0 - (part.length : Int)).toNat < 10 ^ 308 * 1 := by
      rw [hnone]
      calc ofDigits digits * Nat.pow 10 0 = ofDigits digits := Nat.mul_one _
        _ < 10 ^ digits.length := hvalue
        _ ≤ 10 ^ 308 * 1 := by
          rw [Nat.mul_one]
          exact Nat.pow_le_pow_right (by decide) (by omega)
    obtain ⟨m, e, hfraction, hm, he⟩ := Binary64.exists_ofFraction negative hsmall
    refine ⟨m, e, hfraction, hm.trans (Nat.succ_le_succ (Nat.mul_le_mul_right _ ?_)), he⟩
    rw [hnone]
    exact (Nat.mul_one _).le.trans hnum
  · have hsmall : ofDigits digits < 10 ^ 308 * Nat.pow 10 (-(0 - (part.length : Int))).toNat := by
      calc ofDigits digits < 10 ^ digits.length := hvalue
        _ ≤ 10 ^ (308 + (-(0 - (part.length : Int))).toNat) :=
          Nat.pow_le_pow_right (by decide) (by omega)
        _ = 10 ^ 308 * Nat.pow 10 (-(0 - (part.length : Int))).toNat := Nat.pow_add ..
    obtain ⟨m, e, hfraction, hm, he⟩ := Binary64.exists_ofFraction negative hsmall
    exact ⟨m, e, hfraction, hm.trans (Nat.succ_le_succ (Nat.mul_le_mul_right _ hnum)), he⟩

end Number

end Stencil
