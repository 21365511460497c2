import Mathlib.Algebra.Order.Ring.Int
import Mathlib.Data.List.TakeWhile
import Stencil.Number.Reading
import Stencil.Proofs.Text.Trim

/-!
# The text of a floating-point number is no whole number

A finite number is written with a point or with an exponent, because the decimal with the fewest digits that
reads back as it is not zero (`shortest_digits_ne_zero`); what is not finite is written as a word. A whole
number holds no such character (`chars_of_readInt`), so that none is read from the text of a floating-point
number (`readInt_text_ne_ok`). This goes for every number whose exponent is in the range, as it is for those
that are read from a text (`inRange_of_readBinary`).
-/

namespace Stencil

open Text

namespace Binary64

/-! ## The exponent of the first digit -/

variable {n fuel k : Nat}

/-- The search stops at a power of ten that is not above the number. -/
theorem pow_decimalLog_le (h : 10 ^ k ≤ n) : 10 ^ decimalLog n fuel k ≤ n := by
  induction fuel generalizing k with
  | zero => exact h
  | succ fuel ih =>
    rw [decimalLog]
    split
    · next hnext => exact ih hnext
    · exact h

/-- With fuel enough it stops only where the next power is above the number. -/
theorem lt_pow_decimalLog (n fuel k : Nat) (h : n < 10 ^ (fuel + 1 + k)) :
    n < 10 ^ (decimalLog n fuel k + 1) := by
  induction fuel generalizing k with
  | zero => rwa [decimalLog, ← Nat.add_comm 1 k]
  | succ fuel ih =>
    rw [decimalLog]
    split
    · exact ih _ (by rwa [show fuel + 1 + (k + 1) = fuel + 1 + 1 + k by omega])
    · next hnext => exact Nat.not_le.mp hnext

variable {num den : Nat} {e low : Int}

/-- The fraction is not below a power of ten. -/
def ReachesPower (num den : Nat) (e : Int) : Prop := (scaleDecimal num den e).2 ≤ (scaleDecimal num den e).1

theorem reachesPower_ofNat : ReachesPower num den k ↔ den * 10 ^ k ≤ num := by
  rw [ReachesPower, scaleDecimal, if_pos (Int.natCast_nonneg k), Int.toNat_natCast]
  rfl

theorem reachesPower_neg : ReachesPower num den (-k) ↔ den ≤ num * 10 ^ k := by
  rcases Nat.eq_zero_or_pos k with rfl | hk
  · simp [ReachesPower, scaleDecimal]
  · rw [ReachesPower, scaleDecimal, if_neg (by omega), neg_neg, Int.toNat_natCast]
    rfl

theorem ReachesPower.mono (h : ReachesPower num den e) (hlow : low ≤ e) : ReachesPower num den low := by
  obtain ⟨k, rfl | rfl⟩ := low.eq_nat_or_neg
  · obtain ⟨l, rfl⟩ := Int.eq_ofNat_of_zero_le (show 0 ≤ e by omega)
    rw [reachesPower_ofNat] at h ⊢
    exact (Nat.mul_le_mul_left den (Nat.pow_le_pow_right (by decide) (by omega))).trans h
  · rw [reachesPower_neg]
    obtain ⟨l, rfl | rfl⟩ := e.eq_nat_or_neg
    · rw [reachesPower_ofNat] at h
      calc den ≤ den * 10 ^ l := Nat.le_mul_of_pos_right _ (Nat.pow_pos (by decide))
        _ ≤ num := h
        _ ≤ num * 10 ^ k := Nat.le_mul_of_pos_right _ (Nat.pow_pos (by decide))
    · rw [reachesPower_neg] at h
      exact h.trans (Nat.mul_le_mul_left num (Nat.pow_le_pow_right (by decide) (by omega)))

/-- A fraction reaches the power of ten of its first digit, if that is not too far behind the point. -/
theorem reachesPower_leadingExponent (hnum : 0 < num) (hden : 0 < den) (hbound : den < 10 ^ (400 + 1)) :
    ReachesPower num den (leadingExponent num den) := by
  unfold leadingExponent
  split
  · -- the fraction is not below one: the search is for the power below its whole part
    next hle =>
    rw [reachesPower_ofNat, mul_comm]
    refine (Nat.le_div_iff_mul_le hden).mp (pow_decimalLog_le ?_)
    exact (Nat.one_le_div_iff hden).mpr hle
  · -- below one, the search is for the power below its inverse, and the next one may be needed
    dsimp only
    split
    · next hpower => exact reachesPower_neg.mpr (beq_iff_eq.mp hpower).le
    · rw [← Nat.cast_add_one, reachesPower_neg, mul_comm]
      have hquotient : den / num < 10 ^ (400 + 1) := (Nat.div_le_self _ _).trans_lt hbound
      exact ((Nat.div_lt_iff_lt_mul hnum).mp (lt_pow_decimalLog _ 400 0 hquotient)).le

/-! ## The decimal with the fewest digits -/

/-- A fraction that is not below one is not rounded to zero. -/
theorem roundQuotient_ne_zero (hden : 0 < den) (hle : den ≤ num) : roundQuotient num den ≠ 0 := by
  have hquotient : 0 < num / den := Nat.div_pos hle hden
  unfold roundQuotient
  dsimp only
  repeat' split
  all_goals omega

/-- What the search ends with is not zero: a decimal it finds is not, and the last one is the fraction rounded
to a grid that it reaches. -/
theorem searchShortest_digits_ne_zero {x : Binary64} {count : Nat} (hden : 0 < den)
    (hreaches : ReachesPower num den e) : (searchShortest x num den count e).digits ≠ 0 := by
  induction count generalizing e with
  | zero =>
    refine roundQuotient_ne_zero ?_ hreaches
    unfold scaleDecimal
    split
    · exact Nat.mul_pos hden (Nat.pow_pos (by decide))
    · exact hden
  | succ count ih =>
    rw [searchShortest]
    split
    · next d hfind =>
      have hd := List.find?_some hfind
      rw [Bool.and_eq_true, bne_iff_ne] at hd
      exact hd.1
    · exact ih (hreaches.mono (by omega))

theorem shortest_digits_ne_zero {m : Nat} (hm : m ≠ 0) (he : minExponent ≤ e) :
    (shortest m e).digits ≠ 0 := by
  have hm : 0 < m := Nat.pos_of_ne_zero hm
  unfold shortest
  dsimp only
  split
  · exact searchShortest_digits_ne_zero Nat.one_pos (reachesPower_leadingExponent
      (Nat.mul_pos hm (Nat.pow_pos (by decide))) Nat.one_pos (Nat.one_lt_pow (by decide) (by decide)))
  · have hden : 0 < 2 ^ (-e).toNat := Nat.pow_pos (by decide)
    refine searchShortest_digits_ne_zero hden (reachesPower_leadingExponent hm hden ?_)
    have hplaces : (-e).toNat ≤ 1074 := by
      unfold minExponent at he
      omega
    calc 2 ^ (-e).toNat ≤ 2 ^ 1074 := Nat.pow_le_pow_right (by decide) hplaces
      _ < 10 ^ (400 + 1) := by decide +kernel

/-! ## Its text -/

theorem ofDigitChars_zeros {digits : List Char} (hzeros : ∀ c ∈ digits, c = '0') :
    Nat.ofDigitChars 10 digits 0 = 0 := by
  induction digits with
  | nil => rfl
  | cons c digits ih =>
    obtain ⟨rfl, hrest⟩ := List.forall_mem_cons.mp hzeros
    exact Nat.ofDigitChars_cons.trans (ih hrest)

/-- The digits of a number that is not zero are not all zeros. -/
theorem dropTrailingZeros_toDigits_ne_nil (hn : n ≠ 0) : dropTrailingZeros (Nat.toDigits 10 n) ≠ [] := by
  intro hnil
  rw [dropTrailingZeros, List.reverse_eq_nil_iff, List.dropWhile_eq_nil_iff] at hnil
  refine hn (Nat.ofDigitChars_ten_toDigits.symm.trans (ofDigitChars_zeros fun c hc => ?_))
  exact beq_iff_eq.mp (hnil c (List.mem_reverse.mpr hc))

/-- A decimal that is not zero is written with a point or an exponent. -/
theorem decimalText_marked {d : Decimal} (hd : d.digits ≠ 0) : ∃ c ∈ decimalText d, c ∈ ['.', 'e'] := by
  have hne := dropTrailingZeros_toDigits_ne_nil hd
  unfold decimalText
  dsimp only
  repeat' split
  · exact ⟨'.', by simp, by decide⟩
  · exact ⟨'.', by simp, by decide⟩
  · exact ⟨'.', by simp, by decide⟩
  · next hnil => exact absurd hnil hne
  · exact ⟨'e', by simp, by decide⟩
  · exact ⟨'e', by simp, by decide⟩

/-- The exponent of a finite number is not below the least one. -/
def InRange (x : Binary64) : Prop := ∀ s m e, x = .finite s m e → minExponent ≤ e

/-- **Floating-point numbers are written with a point, an exponent or a word.** -/
theorem text_marked {x : Binary64} (hx : x.InRange) : ∃ c ∈ x.text.toList, c ∈ ['.', 'e', 'n'] := by
  have hnamed : 'n' ∈ "nan".toList := by decide
  cases x with
  | nan mark => exact ⟨'n', hnamed, by decide⟩
  | infinite negative => cases negative <;> exact ⟨'n', by decide, by decide⟩
  | finite s m e =>
    have hbody : ∃ c ∈ if m == 0 then ['0', '.', '0'] else decimalText (shortest m e),
        c ∈ ['.', 'e', 'n'] := by
      split
      · exact ⟨'.', by decide, by decide⟩
      · next hm =>
        obtain ⟨c, hc, hmark⟩ := decimalText_marked
          (shortest_digits_ne_zero (by simpa using hm) (hx s m e rfl))
        exact ⟨c, hc, List.mem_append_left ['n'] hmark⟩
    obtain ⟨c, hc, hmark⟩ := hbody
    refine ⟨c, ?_, hmark⟩
    rw [text, String.toList_ofList]
    split
    · exact List.mem_cons_of_mem _ hc
    · exact hc

/-! ## Numbers that are read -/

theorem inRange_zeroWith (negative : Bool) : (zeroWith negative).InRange := by
  rintro s m e heq
  cases heq
  exact Int.le_refl _

theorem inRange_ofFraction (negative : Bool) (num den : Nat) : (ofFraction negative num den).InRange := by
  have hmax : minExponent ≤ max (naturalExponent num den) minExponent := le_max_right _ _
  unfold ofFraction
  dsimp only
  generalize max (naturalExponent num den) minExponent = e at hmax
  repeat' split
  · exact inRange_zeroWith negative
  · exact nofun
  · rintro s m _ ⟨⟩
    exact hmax.trans (by omega)
  · exact nofun
  · rintro s m _ ⟨⟩
    exact hmax

end Binary64

namespace Number

open Binary64

theorem inRange_binaryOfDigits (negative : Bool) (whole part : List Nat) (exponent : Int) :
    (binaryOfDigits negative whole part exponent).InRange := by
  unfold binaryOfDigits
  dsimp only
  repeat' split
  · exact inRange_zeroWith negative
  · exact nofun
  · exact inRange_zeroWith negative
  · exact inRange_ofFraction negative _ _
  · exact inRange_ofFraction negative _ _

theorem inRange_of_readDecimal {negative : Bool} {s : List Char} {x : Binary64}
    (hread : readDecimal negative s = some x) : x.InRange := by
  unfold readDecimal at hread
  obtain ⟨⟨whole, rest⟩, -, hread⟩ := Option.bind_eq_some_iff.mp hread
  dsimp only at hread
  split at hread
  · obtain ⟨⟨part, tail⟩, -, hread⟩ := Option.bind_eq_some_iff.mp hread
    dsimp only at hread
    split at hread
    · cases hread
    · obtain ⟨e, -, hread⟩ := Option.bind_eq_some_iff.mp hread
      cases hread
      exact inRange_binaryOfDigits negative whole part e
  · split at hread
    · cases hread
    · obtain ⟨e, -, hread⟩ := Option.bind_eq_some_iff.mp hread
      cases hread
      exact inRange_binaryOfDigits negative whole [] e

/-- What is read from a text is in the range. -/
theorem inRange_of_readBinary {mark : Nat} {s : List Char} {x : Binary64}
    (hread : readBinary mark s = some x) : x.InRange := by
  unfold readBinary at hread
  dsimp only at hread
  repeat' split at hread
  · cases hread
    exact nofun
  · cases hread
    exact nofun
  · exact inRange_of_readDecimal hread

/-! ## Texts that are no whole numbers -/

theorem chars_of_takeDigits {afterDigit : Bool} {s rest : List Char} {digits : List Nat}
    (htake : takeDigits afterDigit s = some (digits, rest)) :
    ∀ c ∈ s, c = '_' ∨ isDecimal c = true ∨ c ∈ rest := by
  induction s generalizing afterDigit digits with
  | nil => exact nofun
  | cons c s ih =>
    unfold takeDigits at htake
    split at htake
    · next d hd =>
      obtain ⟨⟨more, after⟩, hmore, heq⟩ := Option.map_eq_some_iff.mp htake
      cases heq
      exact List.forall_mem_cons.mpr ⟨.inr (.inl (Option.isSome_of_eq_some hd)), ih hmore⟩
    · split at htake
      · next hc =>
        split at htake
        · split at htake
          · exact List.forall_mem_cons.mpr ⟨.inl (beq_iff_eq.mp hc), ih htake⟩
          · cases htake
        · cases htake
      · cases htake
        exact fun _ h => .inr (.inr h)

/-- A whole number is written with digits, underscores, signs and blanks. -/
theorem chars_of_readInt {s : List Char} {n : Int} (hread : readInt s = .ok n) :
    ∀ c ∈ s, isBlank c = true ∨ c ∈ ['-', '+', '_'] ∨ isDecimal c = true := by
  have hsign (t : List Char) : ∀ c ∈ t, c ∈ ['-', '+'] ∨ c ∈ (splitSign t).2 := by
    unfold splitSign
    split <;> intro c hc
    · exact (List.mem_cons.mp hc).imp_left fun h => by rw [h]; decide
    · exact (List.mem_cons.mp hc).imp_left fun h => by rw [h]; decide
    · exact .inr hc
  intro c hc
  by_cases hblank : isBlank c = true
  · exact .inl hblank
  rw [Bool.not_eq_true] at hblank
  refine .inr ?_
  rcases hsign _ c (mem_trim hc hblank) with hsign | hbody
  · exact .inl (List.mem_append_left ['_'] hsign)
  · unfold readInt at hread
    dsimp only at hread
    split at hread
    · cases hread
    · next digits rest htake =>
      split at hread
      · cases hread
      · split at hread
        · cases hread
        · next hnothing =>
          have hrest : rest = [] := by simpa using (not_or.mp (mt Bool.or_eq_true_iff.mpr hnothing)).2
          rcases chars_of_takeDigits htake c hbody with h | h | h
          · exact .inl (by rw [h]; decide)
          · exact .inr h
          · rw [hrest] at h
            cases h

/-- **The text of a floating-point number is not read as a whole number.** -/
theorem readInt_text_ne_ok {x : Binary64} (hx : x.InRange) (n : Int) : readInt x.text.toList ≠ .ok n := by
  intro hread
  obtain ⟨c, hc, hmark⟩ := text_marked hx
  have hmarks : ∀ c ∈ ['.', 'e', 'n'],
      ¬ (isBlank c = true ∨ c ∈ ['-', '+', '_'] ∨ isDecimal c = true) := by decide
  exact hmarks c hmark (chars_of_readInt hread c hc)

end Number

end Stencil
