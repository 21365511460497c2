import Stencil.Text.Blank

/-!
# Trimming

Trimming at one end first, or twice, makes no difference to trimming at both ends.
-/

namespace Stencil.Text

@[simp] theorem trimLeft_trimLeft (s : List Char) : trimLeft (trimLeft s) = trimLeft s := by
  induction s with
  | nil => rfl
  | cons c rest ih =>
    by_cases hblank : isBlank c = true
    · rw [trimLeft, trimLeft, List.dropWhile_cons_of_pos hblank]
      exact ih
    · rw [trimLeft, trimLeft, List.dropWhile_cons_of_neg hblank, List.dropWhile_cons_of_neg hblank]

theorem trimRight_cons (c : Char) (rest : List Char) :
    trimRight (c :: rest) =
      if trimRight rest = [] ∧ isBlank c = true then [] else c :: trimRight rest := by
  rw [trimRight]
  cases trimRight rest with
  | nil => by_cases hblank : isBlank c = true <;> simp [hblank]
  | cons d kept => simp

@[simp] theorem trimRight_trimRight (s : List Char) : trimRight (trimRight s) = trimRight s := by
  induction s with
  | nil => rfl
  | cons c rest ih =>
    rw [trimRight_cons c rest]
    split
    · rfl
    · next hkept => rw [trimRight_cons, ih, if_neg hkept]

/-- The two ends are trimmed independently. -/
theorem trimLeft_trimRight (s : List Char) : trimLeft (trimRight s) = trimRight (trimLeft s) := by
  induction s with
  | nil => rfl
  | cons c rest ih =>
    by_cases hblank : isBlank c = true
    · -- a blank in front goes on both sides
      rw [show trimLeft (c :: rest) = trimLeft rest from List.dropWhile_cons_of_pos hblank, ← ih,
        trimRight_cons]
      split
      · next hnone => rw [hnone.1]
      · exact List.dropWhile_cons_of_pos hblank
    · rw [show trimLeft (c :: rest) = c :: rest from List.dropWhile_cons_of_neg hblank,
        trimRight_cons, if_neg fun hnone => hblank hnone.2]
      exact List.dropWhile_cons_of_neg hblank

theorem trim_trimLeft (s : List Char) : trim (trimLeft s) = trim s := by
  rw [trim, trimLeft_trimLeft, trim]

theorem trim_trimRight (s : List Char) : trim (trimRight s) = trim s := by
  rw [trim, trimLeft_trimRight, trimRight_trimRight, trim]

/-- Nothing but blanks goes. -/
theorem mem_trim {c : Char} {s : List Char} (hmem : c ∈ s) (hc : isBlank c = false) : c ∈ trim s := by
  have hleft : c ∈ trimLeft s := by
    rw [← List.takeWhile_append_dropWhile (p := isBlank) (l := s)] at hmem
    refine (List.mem_append.mp hmem).resolve_left fun hfront => ?_
    rw [List.all_eq_true.mp List.all_takeWhile c hfront] at hc
    cases hc
  rw [trim]
  generalize trimLeft s = t at hleft
  induction t with
  | nil => cases hleft
  | cons d rest ih =>
    rw [trimRight_cons]
    rcases List.mem_cons.mp hleft with rfl | hrest
    · rw [if_neg fun hnone => by rw [hc] at hnone; cases hnone.2]
      exact List.mem_cons_self
    · have hkept := ih hrest
      rw [if_neg fun hnone => by rw [hnone.1] at hkept; cases hkept]
      exact List.mem_cons_of_mem d hkept

/-- What was trimmed at its left end is trimmed as before. -/
@[simp] theorem trimText_trimLeftText (s : String) : trimText (trimLeftText s) = trimText s := by
  rw [trimText, trimLeftText, String.toList_ofList, trim_trimLeft, trimText]

/-- What was trimmed at its right end is trimmed as before. -/
@[simp] theorem trimText_trimRightText (s : String) : trimText (trimRightText s) = trimText s := by
  rw [trimText, trimRightText, String.toList_ofList, trim_trimRight, trimText]

end Stencil.Text
