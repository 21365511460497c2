import Mathlib.Data.List.Infix
import Stencil.Text.Search

/-!
# Finding a pattern

* `cut_eq_some`, `not_infix_of_cut_eq_none`: a text is cut at an occurrence of the pattern, or it holds none.
* `Occurrences pattern s start places` counts the occurrences of a pattern from a place on, leftmost first,
  none of them overlapping the one before it. Only one list of places does (`Occurrences.unique`).
* `Cuts pattern s pieces` says that these occurrences separate the pieces. The pieces that are found are so
  separated (`cuts_pieces`), and the rest follows from this: joined again they are the text (`Cuts.joined_eq`),
  none of them holds the pattern (`Cuts.not_infix`), and there is one more of them than there are occurrences
  (`Cuts.exists_occurrences`).
-/

namespace Stencil.Text

variable {pattern s rest : List Char}

/-! ## The first occurrence -/

theorem dropPrefix?_eq_some_iff : dropPrefix? pattern s = some rest ↔ s = pattern ++ rest := by
  induction pattern generalizing s with
  | nil => simp [dropPrefix?]
  | cons p pattern ih =>
    cases s with
    | nil => simp [dropPrefix?]
    | cons c s =>
      rw [dropPrefix?]
      by_cases hc : p = c
      · subst hc
        simp [ih]
      · simp [hc, Ne.symm hc]

theorem not_prefix_of_dropPrefix? (hdrop : dropPrefix? pattern s = none) : ¬ pattern <+: s := by
  rintro ⟨rest, hrest⟩
  rw [dropPrefix?_eq_some_iff.mpr hrest.symm] at hdrop
  cases hdrop

/-- What stands around the first occurrence of a pattern is the text without it. -/
theorem cut_eq_some {before after : List Char} (hcut : cut pattern s = some (before, after)) :
    s = before ++ pattern ++ after := by
  induction s generalizing before with
  | nil =>
    unfold cut at hcut
    split at hcut
    · next hempty =>
      cases hcut
      rw [List.isEmpty_iff.mp hempty]
      rfl
    · cases hcut
  | cons c cs ih =>
    unfold cut at hcut
    split at hcut
    · next rest hdrop =>
      cases hcut
      exact dropPrefix?_eq_some_iff.mp hdrop
    · obtain ⟨⟨front, back⟩, hrest, heq⟩ := Option.map_eq_some_iff.mp hcut
      cases heq
      rw [ih hrest]
      rfl

/-- A text that is not cut does not hold the pattern. -/
theorem not_infix_of_cut_eq_none (hcut : cut pattern s = none) : ¬ pattern <:+: s := by
  induction s with
  | nil =>
    unfold cut at hcut
    split at hcut
    · cases hcut
    · next hempty =>
      rw [List.infix_nil]
      rintro rfl
      exact hempty rfl
  | cons c cs ih =>
    unfold cut at hcut
    split at hcut
    · cases hcut
    · next hdrop =>
      rw [Option.map_eq_none_iff] at hcut
      rw [List.infix_cons_iff, not_or]
      exact ⟨not_prefix_of_dropPrefix? hdrop, ih hcut⟩

/-! ## All occurrences -/

/-- The pattern stands at a place of the text. -/
def StandsAt (pattern s : List Char) (place : Nat) : Prop := pattern <+: s.drop place

/-- The occurrences of a pattern from a place on, leftmost first; each is looked for behind the end of the one
before it. -/
inductive Occurrences (pattern s : List Char) : Nat → List Nat → Prop where
  | none {start : Nat} (habsent : ∀ i, start ≤ i → ¬ StandsAt pattern s i) : Occurrences pattern s start []
  | next {start place : Nat} {later : List Nat} (hstart : start ≤ place) (hstands : StandsAt pattern s place)
    (hfirst : ∀ i, start ≤ i → i < place → ¬ StandsAt pattern s i)
    (hlater : Occurrences pattern s (place + pattern.length) later) :
    Occurrences pattern s start (place :: later)

theorem Occurrences.unique {start : Nat} {places others : List Nat}
    (hplaces : Occurrences pattern s start places) (hothers : Occurrences pattern s start others) :
    places = others := by
  induction hplaces generalizing others with
  | none habsent =>
    cases hothers with
    | none => rfl
    | next hstart hstands => exact absurd hstands (habsent _ hstart)
  | @next start place later hstart hstands hfirst hlater ih =>
    cases hothers with
    | none habsent => exact absurd hstands (habsent _ hstart)
    | @next _ other _ hstart' hstands' hfirst' hlater' =>
      obtain rfl : place = other := by
        rcases Nat.lt_trichotomy place other with hlt | heq | hlt
        · exact absurd hstands (hfirst' _ hstart hlt)
        · exact heq
        · exact absurd hstands' (hfirst _ hstart' hlt)
      rw [ih hlater']

theorem standsAt_append (front s : List Char) (i : Nat) :
    StandsAt pattern (front ++ s) (front.length + i) ↔ StandsAt pattern s i := by
  rw [StandsAt, List.drop_append, List.drop_eq_nil_of_le (Nat.le_add_right _ i), List.nil_append,
    Nat.add_sub_cancel_left, StandsAt]

/-- Whether the pattern stands at a place depends only on what ends with it. -/
theorem standsAt_left {front back : List Char} {i : Nat} (hi : i + pattern.length ≤ front.length) :
    StandsAt pattern (front ++ back) i ↔ StandsAt pattern front i := by
  rw [StandsAt, List.drop_append_of_le_length (Nat.le_of_add_right_le hi), StandsAt,
    List.isPrefix_append_of_length]
  rw [List.length_drop]
  omega

/-- A text is cut at the first place where the pattern stands. -/
theorem not_standsAt_of_cut {before after : List Char} (hcut : cut pattern s = some (before, after)) :
    ∀ i < before.length, ¬ StandsAt pattern s i := by
  induction s generalizing before with
  | nil =>
    unfold cut at hcut
    split at hcut
    · cases hcut
      nofun
    · cases hcut
  | cons c cs ih =>
    unfold cut at hcut
    split at hcut
    · cases hcut
      nofun
    · next hdrop =>
      obtain ⟨⟨front, back⟩, hrest, heq⟩ := Option.map_eq_some_iff.mp hcut
      cases heq
      intro i hi
      cases i with
      | zero => exact not_prefix_of_dropPrefix? hdrop
      | succ i => exact ih hrest i (Nat.lt_of_succ_lt_succ hi)

theorem infix_of_standsAt {i : Nat} (h : StandsAt pattern s i) : pattern <:+: s :=
  h.isInfix.trans (List.drop_suffix i s).isInfix

theorem exists_standsAt (hp : pattern ≠ []) (h : pattern <:+: s) :
    ∃ i < s.length, ∀ rest, StandsAt pattern (s ++ rest) i := by
  obtain ⟨front, back, rfl⟩ := h
  have hlength := List.length_pos_of_ne_nil hp
  refine ⟨front.length, by simp only [List.length_append]; omega, fun rest => ?_⟩
  rw [List.append_assoc, List.append_assoc, StandsAt, List.drop_left]
  exact List.prefix_append _ _

/-! ## The pieces between them -/

/-- The text is cut into pieces at the occurrences of the pattern, the leftmost one first. -/
inductive Cuts (pattern : List Char) : List Char → List (List Char) → Prop where
  | whole {s : List Char} (habsent : ¬ pattern <:+: s) : Cuts pattern s [s]
  | first {piece rest : List Char} {later : List (List Char)}
    (hfirst : ∀ i < piece.length, ¬ StandsAt pattern (piece ++ (pattern ++ rest)) i)
    (hlater : Cuts pattern rest later) : Cuts pattern (piece ++ (pattern ++ rest)) (piece :: later)

/-- Induction along the search. What was passed of the current piece holds no place where the pattern stands;
`front` is what is still to be passed of an occurrence. -/
theorem cuts_piecesFrom (hp : pattern ≠ []) {skip : Nat} {front piece : List Char} (hs : s = front ++ rest)
    (hskip : front.length = skip)
    (hfirst : ∀ i < piece.length, ¬ StandsAt pattern (piece.reverse ++ rest) i) :
    Cuts pattern (piece.reverse ++ rest) (piecesFrom pattern skip piece s) := by
  fun_induction piecesFrom pattern skip piece s generalizing front rest with
  | case1 skip piece =>
    obtain ⟨rfl, rfl⟩ := List.append_eq_nil_iff.mp hs.symm
    rw [List.append_nil] at hfirst ⊢
    refine .whole fun hinfix => ?_
    obtain ⟨i, hi, hstands⟩ := exists_standsAt hp hinfix
    have hstands := hstands []
    rw [List.append_nil] at hstands
    exact hfirst i (by rwa [List.length_reverse] at hi) hstands
  | case2 piece c cs skip ih =>
    cases front with
    | nil => cases hskip
    | cons d front =>
      obtain ⟨-, rfl⟩ := List.cons.inj hs
      exact ih rfl (Nat.succ.inj hskip) hfirst
  | case3 piece c cs hfound ih =>
    obtain rfl := List.length_eq_zero_iff.mp hskip
    obtain ⟨after, hafter⟩ := Option.isSome_iff_exists.mp hfound
    rw [dropPrefix?_eq_some_iff] at hafter
    obtain rfl : c :: cs = rest := hs
    obtain ⟨p, ps, rfl⟩ := List.exists_cons_of_ne_nil hp
    rw [hafter] at hfirst ⊢
    obtain ⟨-, rfl⟩ := List.cons.inj hafter
    exact .first (by rwa [List.length_reverse]) (ih rfl rfl nofun)
  | case4 piece c cs habsent ih =>
    obtain rfl := List.length_eq_zero_iff.mp hskip
    obtain rfl : c :: cs = rest := hs
    have hs : cs = [] ++ cs := rfl
    have hnext := ih hs rfl
    rw [List.reverse_cons, List.append_assoc, List.singleton_append] at hnext
    refine hnext fun i hi hstands => ?_
    rcases Nat.lt_succ_iff_lt_or_eq.mp hi with hlt | rfl
    · exact hfirst i hlt hstands
    · rw [← List.length_reverse, ← Nat.add_zero (List.length _), standsAt_append, StandsAt,
        List.drop_zero] at hstands
      obtain ⟨after, hafter⟩ := hstands
      rw [dropPrefix?_eq_some_iff.mpr hafter.symm] at habsent
      exact habsent rfl

/-- **The pieces of a text are separated by the occurrences of the pattern.** -/
theorem cuts_pieces (hp : pattern ≠ []) (s : List Char) : Cuts pattern s (pieces pattern s) := by
  have hs : s = [] ++ s := rfl
  have hcuts : Cuts pattern ([].reverse ++ s) (piecesFrom pattern 0 [] s) :=
    cuts_piecesFrom hp hs rfl nofun
  exact hcuts

section

variable {pieces : List (List Char)}

theorem Cuts.ne_nil (hcuts : Cuts pattern s pieces) : pieces ≠ [] := by
  cases hcuts <;> exact List.cons_ne_nil _ _

theorem joined_cons (separator piece : List Char) {later : List (List Char)} (hne : later ≠ []) :
    joined separator (piece :: later) = piece ++ separator ++ joined separator later := by
  cases later with
  | nil => exact absurd rfl hne
  | cons next later => rfl

/-- Nothing stands between the characters of a text. -/
theorem joined_singletons (s : List Char) : joined [] (s.map fun c => [c]) = s := by
  induction s with
  | nil => rfl
  | cons c rest ih =>
    cases rest with
    | nil => rfl
    | cons d rest =>
      rw [List.map_cons, joined_cons _ _ (by simp), ih]
      rfl

/-- Joined again with the pattern, the pieces are the text. -/
theorem Cuts.joined_eq (hcuts : Cuts pattern s pieces) : joined pattern pieces = s := by
  induction hcuts with
  | whole => rfl
  | first hfirst hlater ih => rw [joined_cons _ _ hlater.ne_nil, ih, List.append_assoc]

/-- No piece holds the pattern. -/
theorem Cuts.not_infix (hp : pattern ≠ []) (hcuts : Cuts pattern s pieces) :
    ∀ piece ∈ pieces, ¬ pattern <:+: piece := by
  induction hcuts with
  | whole habsent => exact List.forall_mem_singleton.mpr habsent
  | @first piece rest later hfirst hlater ih =>
    refine List.forall_mem_cons.mpr ⟨fun hinfix => ?_, ih⟩
    obtain ⟨i, hi, hstands⟩ := exists_standsAt hp hinfix
    exact hfirst i hi (hstands _)

/-- There is one more piece than there are occurrences. Behind any text in front, they are counted from its
end. -/
theorem Cuts.exists_occurrences (hcuts : Cuts pattern s pieces) (front : List Char) :
    ∃ places, Occurrences pattern (front ++ s) front.length places ∧ pieces.length = places.length + 1 := by
  induction hcuts generalizing front with
  | whole habsent =>
    refine ⟨[], .none fun i hi hstands => habsent ?_, rfl⟩
    obtain ⟨k, rfl⟩ := Nat.exists_eq_add_of_le hi
    exact infix_of_standsAt ((standsAt_append _ _ k).mp hstands)
  | @first piece rest later hfirst hlater ih =>
    obtain ⟨places, hplaces, hlength⟩ := ih (front ++ piece ++ pattern)
    rw [List.append_assoc, List.append_assoc, List.length_append, List.length_append] at hplaces
    refine ⟨(front.length + piece.length) :: places,
      .next (Nat.le_add_right _ _) ?_ (fun i hi hlt hstands => ?_) hplaces, congrArg (· + 1) hlength⟩
    · rw [standsAt_append, StandsAt, List.drop_left]
      exact List.prefix_append _ _
    · obtain ⟨k, rfl⟩ := Nat.exists_eq_add_of_le hi
      exact hfirst k (Nat.lt_of_add_lt_add_left hlt) ((standsAt_append _ _ k).mp hstands)

end

end Stencil.Text
