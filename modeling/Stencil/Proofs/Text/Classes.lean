import Mathlib.Data.List.Chain
import Mathlib.Data.List.TakeDrop
import Mathlib.Data.List.TakeWhile
import Stencil.Markup.Fragment

/-!
# Characters of names and numbers

A character set is looked up by halving; `contains_eq` says what that finds when the bounds are in
order. It gives the facts about scripts that markup rests on: no character of a name and no digit is
a blank (`isBlank_of_isNameChar`, `isBlank_of_isDecimal`), and so all of them stand for themselves in a
fragment; and every decimal digit has a digit value (`isDigitLike_of_isDecimal`), but not the other way
round.
-/

namespace Stencil.Text

/-! ## Looking up by halving -/

namespace CharSet

/-- Halving finds the place behind which all bounds are above the code point. -/
theorem rank_eq {bounds : Array Nat} {n k lo hi : Nat}
    (hbelow : ∀ i < k, bounds.getD i 0 ≤ n)
    (habove : ∀ i, k ≤ i → i < bounds.size → n < bounds.getD i 0)
    (hlo : lo ≤ k) (hhi : k ≤ hi) (hsize : hi ≤ bounds.size) : rank bounds n lo hi = k := by
  fun_induction rank bounds n lo hi with
  | case1 lo hi hlt mid hle ih =>
    refine ih ?_ hhi hsize
    by_contra hmid
    exact absurd hle (Nat.not_le.mpr (habove mid (by omega) (by omega)))
  | case2 lo hi hlt mid hle ih =>
    refine ih hlo ?_ (by omega)
    by_contra hmid
    exact hle (hbelow mid (by omega))
  | case3 lo hi hlt => omega

/-- How many bounds of a set a code point has reached. -/
def reached (set : CharSet) (n : Nat) : Nat := (set.bounds.toList.takeWhile (· ≤ n)).length

/-- In a set whose bounds are in order, what counts is how many bounds a code point has reached. -/
theorem contains_eq {set : CharSet} (hsorted : set.bounds.toList.Pairwise (· ≤ ·)) (n : Nat) :
    set.contains n = (set.reached n % 2 == 1) := by
  obtain ⟨⟨bounds⟩⟩ := set
  have hsplit := List.takeWhile_append_dropWhile (p := (· ≤ n)) (l := bounds)
  generalize hreached : bounds.takeWhile (· ≤ n) = reached at hsplit
  generalize hothers : bounds.dropWhile (· ≤ n) = others at hsplit
  have hbelow : ∀ b ∈ reached, b ≤ n := fun b hb => by
    rw [← hreached] at hb
    simpa using List.all_eq_true.mp (List.all_takeWhile) b hb
  have habove : ∀ b ∈ others, n < b := by
    cases others with
    | nil => exact fun _ hb => nomatch hb
    | cons first others =>
      have hfirst : n < first := by
        have := List.head?_dropWhile_not (· ≤ n) bounds
        rw [hothers] at this
        simpa using this
      have hlater : (first :: others).Pairwise (· ≤ ·) := by
        rw [← hsplit] at hsorted
        exact (List.pairwise_append.mp hsorted).2.1
      intro b hb
      rcases List.mem_cons.mp hb with rfl | hb
      · exact hfirst
      · exact Nat.lt_of_lt_of_le hfirst ((List.pairwise_cons.mp hlater).1 b hb)
  have hrank : rank ⟨bounds⟩ n 0 bounds.length = reached.length := by
    have hlength : bounds.length = reached.length + others.length := by
      rw [← hsplit, List.length_append]
    refine rank_eq (fun i hi => ?_) (fun i hi hsize => ?_) (Nat.zero_le _) (by omega) (Nat.le_refl _)
    · rw [← hsplit, Array.getD_eq_getD_getElem?, List.getElem?_toArray,
        List.getElem?_append_left hi, List.getElem?_eq_getElem hi]
      exact hbelow _ (List.getElem_mem hi)
    · have hi' : i - reached.length < others.length := by
        rw [List.size_toArray] at hsize
        omega
      rw [← hsplit, Array.getD_eq_getD_getElem?, List.getElem?_toArray,
        List.getElem?_append_right hi, List.getElem?_eq_getElem hi']
      exact habove _ (List.getElem_mem hi')
  rw [contains, List.size_toArray, hrank, CharSet.reached, hreached]

theorem reached_mono {set : CharSet} {m n : Nat} (hle : m ≤ n) : set.reached m ≤ set.reached n := by
  have hboth : (set.bounds.toList.takeWhile (· ≤ n)).takeWhile (· ≤ m) =
      set.bounds.toList.takeWhile (· ≤ m) := by
    rw [List.takeWhile_takeWhile]
    refine congrArg (List.takeWhile · _) (funext fun b => ?_)
    simp only [decide_eq_true_eq, decide_eq_decide]
    omega
  rw [reached, ← hboth]
  exact (List.takeWhile_prefix _).length_le

/-- Between two code points that have reached the same bounds all are in the set, or none is. -/
theorem contains_of_between {set : CharSet} (hsorted : set.bounds.toList.Pairwise (· ≤ ·)) {lo n hi : Nat}
    (hlo : lo ≤ n) (hhi : n ≤ hi) (hsame : set.reached lo = set.reached hi) :
    set.contains n = set.contains lo := by
  rw [contains_eq hsorted, contains_eq hsorted,
    Nat.le_antisymm ((reached_mono hhi).trans_eq hsame.symm) (reached_mono hlo)]

end CharSet

/-! ## Blanks -/

/-- The blanks above ASCII. -/
def blanksAboveAscii : List Nat :=
  [0x85, 0xa0, 0x1680, 0x2000, 0x2001, 0x2002, 0x2003, 0x2004, 0x2005, 0x2006, 0x2007, 0x2008, 0x2009,
    0x200a, 0x2028, 0x2029, 0x202f, 0x205f, 0x3000]

theorem toNat_mem_blanksAboveAscii {c : Char} (hblank : isBlank c = true) (hascii : 128 ≤ c.toNat) :
    c.toNat ∈ blanksAboveAscii := by
  simp only [isBlank, Nat.not_lt.mpr hascii, if_false, Bool.or_eq_true, Bool.and_eq_true,
    beq_iff_eq, decide_eq_true_eq] at hblank
  simp only [blanksAboveAscii, List.mem_cons, List.not_mem_nil, or_false]
  omega

/-- A property of the characters of ASCII is one of their code points. -/
theorem of_ascii {p : Char → Prop} (hall : ∀ n < 128, p (Char.ofNat n)) {c : Char}
    (hascii : c.toNat < 128) : p c := by
  have := hall c.toNat hascii
  rwa [Char.ofNat_toNat] at this

/-- How the classes of characters lie in ASCII. -/
theorem ascii_classes : ∀ n < 128,
    (isNameChar (Char.ofNat n) = true ∨ isDigitLike (Char.ofNat n) = true → isBlank (Char.ofNat n) = false) ∧
      (isIdentifierStart (Char.ofNat n) = true →
        isNameChar (Char.ofNat n) = true ∧ isDecimal (Char.ofNat n) = false) := by
  decide +kernel

/-- The bounds of the characters of words as one list. -/
theorem toList_bounds_wordAboveAscii :
    wordAboveAscii.bounds.toList =
      wordAboveAsciiBoundsA.toList ++ (wordAboveAsciiBoundsB.toList ++ (wordAboveAsciiBoundsC.toList ++
        (wordAboveAsciiBoundsD.toList ++ (wordAboveAsciiBoundsE.toList ++
          wordAboveAsciiBoundsF.toList)))) := by
  simp only [wordAboveAscii, Array.toList_append, List.append_assoc]

theorem pairwise_wordAboveAscii : wordAboveAscii.bounds.toList.Pairwise (· ≤ ·) := by
  rw [← List.isChain_iff_pairwise, toList_bounds_wordAboveAscii]
  decide +kernel

theorem contains_wordAboveAscii_of_blank :
    ∀ n ∈ blanksAboveAscii, wordAboveAscii.contains n = false := by
  simp only [CharSet.contains_eq pairwise_wordAboveAscii, CharSet.reached, toList_bounds_wordAboveAscii]
  decide +kernel

/-- No character of a name is a blank, in any script. -/
theorem isBlank_of_isNameChar {c : Char} (hname : isNameChar c = true) : isBlank c = false := by
  by_cases hascii : c.toNat < 128
  · exact of_ascii (p := fun c => isNameChar c = true → isBlank c = false)
      (fun n hn h => (ascii_classes n hn).1 (.inl h)) hascii hname
  · by_contra hblank
    rw [Bool.not_eq_false] at hblank
    have hnone := contains_wordAboveAscii_of_blank _
      (toNat_mem_blanksAboveAscii hblank (Nat.not_lt.mp hascii))
    have hhyphen : c ≠ '-' := by
      rintro rfl
      exact hascii (by decide)
    simp only [isNameChar, isWordChar, if_neg hascii, hnone, Bool.false_or, beq_iff_eq] at hname
    exact hhyphen hname

/-! ## Digits -/

/-- The bounds of the characters with a digit value are in order, no blank lies between a first and a second
one, and the ten digits of every script do. -/
theorem digitLikeAboveAscii_bounds :
    digitLikeAboveAscii.bounds.toList.IsChain (· ≤ ·) ∧
      (∀ n ∈ blanksAboveAscii, digitLikeAboveAscii.reached n % 2 = 0) ∧
      ∀ start ∈ decimalZeros.toList, digitLikeAboveAscii.reached start % 2 = 1 ∧
        digitLikeAboveAscii.reached start = digitLikeAboveAscii.reached (start + 9) := by
  decide +kernel

theorem pairwise_digitLikeAboveAscii : digitLikeAboveAscii.bounds.toList.Pairwise (· ≤ ·) :=
  List.isChain_iff_pairwise.mp digitLikeAboveAscii_bounds.1

/-- Decimal digits have a digit value. -/
theorem isDigitLike_of_isDecimal {c : Char} (hdigit : isDecimal c = true) : isDigitLike c = true := by
  unfold isDecimal digitValue? at hdigit
  unfold isDigitLike
  dsimp only at hdigit
  split at hdigit
  · next hascii =>
    rw [if_pos hascii]
    split at hdigit
    · next hc => exact hc
    · cases hdigit
  · next hascii =>
    rw [Option.isSome_map] at hdigit
    obtain ⟨start, hstart⟩ := Option.isSome_iff_exists.mp hdigit
    have hrow := Array.find?_some hstart
    rw [Bool.and_eq_true, decide_eq_true_eq, decide_eq_true_eq] at hrow
    obtain ⟨hodd, hsame⟩ := digitLikeAboveAscii_bounds.2.2 start
      (Array.mem_toList_iff.mpr (Array.mem_of_find?_eq_some hstart))
    rw [if_neg hascii, CharSet.contains_of_between pairwise_digitLikeAboveAscii hrow.1 (by omega) hsame,
      CharSet.contains_eq pairwise_digitLikeAboveAscii, hodd]
    rfl

/-- Nothing with a digit value is a blank, in any script. -/
theorem isBlank_of_isDigitLike {c : Char} (hlike : isDigitLike c = true) : isBlank c = false := by
  by_cases hascii : c.toNat < 128
  · exact of_ascii (p := fun c => isDigitLike c = true → isBlank c = false)
      (fun n hn h => (ascii_classes n hn).1 (.inr h)) hascii hlike
  · by_contra hblank
    rw [Bool.not_eq_false] at hblank
    have heven := digitLikeAboveAscii_bounds.2.1 _
      (toNat_mem_blanksAboveAscii hblank (Nat.not_lt.mp hascii))
    rw [isDigitLike, if_neg hascii, CharSet.contains_eq pairwise_digitLikeAboveAscii, heven] at hlike
    cases hlike

/-- No digit is a blank, in any script. -/
theorem isBlank_of_isDecimal {c : Char} (hdigit : isDecimal c = true) : isBlank c = false :=
  isBlank_of_isDigitLike (isDigitLike_of_isDecimal hdigit)

/-! ## What an identifier starts with -/

theorem toNat_lt_of_isIdentifierStart {c : Char} (hstart : isIdentifierStart c = true) :
    c.toNat < 128 := by
  have hranges : (decide (c.val ≥ 'A'.val ∧ c.val ≤ 'Z'.val) ||
      decide (c.val ≥ 'a'.val) && decide (c.val ≤ 'z'.val) || c == '_') = true := hstart
  simp only [Bool.or_eq_true, Bool.and_eq_true, decide_eq_true_eq, beq_iff_eq,
    UInt32.le_iff_toNat_le] at hranges
  rcases hranges with (⟨-, h⟩ | ⟨-, h⟩) | rfl
  · exact Nat.lt_of_le_of_lt h (by decide)
  · exact Nat.lt_of_le_of_lt h (by decide)
  · decide

theorem isNameChar_of_isIdentifierStart {c : Char} (hstart : isIdentifierStart c = true) :
    isNameChar c = true :=
  of_ascii (p := fun c => isIdentifierStart c = true → isNameChar c = true)
    (fun n hn h => ((ascii_classes n hn).2 h).1) (toNat_lt_of_isIdentifierStart hstart) hstart

theorem isDecimal_of_isIdentifierStart {c : Char} (hstart : isIdentifierStart c = true) :
    isDecimal c = false :=
  of_ascii (p := fun c => isIdentifierStart c = true → isDecimal c = false)
    (fun n hn h => ((ascii_classes n hn).2 h).2) (toNat_lt_of_isIdentifierStart hstart) hstart

end Stencil.Text
