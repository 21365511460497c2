import Stencil.Proofs.Markup.Layout
import Stencil.Proofs.Text.Search

/-!
# Chunks of conditions

What the tolerant grammar finds in a condition: joining words (`relation?`), chunks between them
(`Chunk`, `Chunks`), and the operands and the operator of a chunk (`comparison?_single`,
`comparison?_compared`).
-/

namespace Stencil

open Text

namespace Fragment

variable {c : Char} {s t gap gap' gap'' after rest left operator right word : List Char}

/-! ## Joining words -/

/-- The words that join two comparisons. -/
def joiningWords : List (List Char) := [['a', 'n', 'd'], ['o', 'r']]

theorem wholeWord?_eq_some_iff :
    wholeWord? word s = some rest ↔ s = word ++ rest ∧ Stops isWordChar rest := by
  have hstops : (!rest.head?.any isWordChar) = true ↔ Stops isWordChar rest := by
    cases rest with
    | nil => simp
    | cons c rest => simp
  rw [wholeWord?, Option.filter_eq_some_iff, dropPrefix?_eq_some_iff, hstops]

theorem relation?_eq_some_iff :
    relation? s = some (word, rest) ↔
      word ∈ joiningWords ∧ s = word ++ rest ∧ Stops isWordChar rest := by
  have hmap (w : List Char) : (wholeWord? w s).map (w, ·) = some (word, rest) ↔
      word = w ∧ s = w ++ rest ∧ Stops isWordChar rest := by
    simp only [Option.map_eq_some_iff, Prod.mk.injEq]
    constructor
    · rintro ⟨r, hr, rfl, rfl⟩
      exact ⟨rfl, wholeWord?_eq_some_iff.mp hr⟩
    · rintro ⟨rfl, hs⟩
      exact ⟨rest, wholeWord?_eq_some_iff.mpr hs, rfl, rfl⟩
  rw [relation?, Option.or_eq_some_iff, hmap, Option.map_eq_none_iff, hmap]
  simp only [joiningWords, List.mem_cons, List.not_mem_nil, or_false]
  constructor
  · rintro (⟨rfl, hs⟩ | ⟨-, rfl, hs⟩)
    · exact ⟨.inl rfl, hs⟩
    · exact ⟨.inr rfl, hs⟩
  · rintro ⟨rfl | rfl, hs, hstops⟩
    · exact .inl ⟨rfl, hs, hstops⟩
    · refine .inr ⟨?_, rfl, hs, hstops⟩
      cases hand : wholeWord? ['a', 'n', 'd'] s with
      | none => rfl
      | some r =>
        have heq := hs.symm.trans (wholeWord?_eq_some_iff.mp hand).1
        cases heq

theorem relation?_eq_none (hword : s.takeWhile isWordChar ∉ joiningWords) : relation? s = none := by
  cases hs : relation? s with
  | none => rfl
  | some found =>
    obtain ⟨hmem, rfl, hstops⟩ := relation?_eq_some_iff.mp hs
    have hchars : ∀ w ∈ joiningWords, ∀ c ∈ w, isWordChar c = true := by decide
    rw [takeWhile_run (hchars _ hmem) hstops] at hword
    exact absurd hmem hword

/-- Nothing but `a` and `o` starts a joining word. -/
theorem relation?_eq_none_of_head (hs : ∀ c ∈ s.head?, c ≠ 'a' ∧ c ≠ 'o') : relation? s = none := by
  cases hfound : relation? s with
  | none => rfl
  | some found =>
    obtain ⟨hmem, rfl, -⟩ := relation?_eq_some_iff.mp hfound
    have hheads : ∀ w ∈ joiningWords, ∃ c rest, w = c :: rest ∧ (c = 'a' ∨ c = 'o') := by
      simp [joiningWords]
    obtain ⟨c, rest, hw, hc⟩ := hheads _ hmem
    rw [hw] at hs
    obtain ⟨ha, ho⟩ := hs c rfl
    exact absurd hc (by simp [ha, ho])

/-! ## Chunks -/

theorem operand_of_at? (h : at? (t ++ s) = some (t, s)) : operand (t ++ s) = (t, s) := by
  rw [operand, h]
  rfl

/-- The chunk at the front of the text, whatever the fuel. -/
def Chunk (s chunk rest : List Char) : Prop :=
  ∀ fuel, s.length < fuel → conditionWithin fuel s = (chunk, rest)

/-- A chunk ends where the text does and in front of a joining word. -/
theorem Chunk.stop (hgap : IsGap gap) (hstops : Stops isBlank s)
    (hend : s = [] ∨ (relation? s).isSome = true) : Chunk (gap ++ s) gap s := by
  intro fuel hfuel
  obtain ⟨fuel, rfl⟩ := Nat.exists_eq_succ_of_ne_zero (Nat.ne_of_gt (Nat.zero_lt_of_lt hfuel))
  have hcondition : (s.isEmpty || (relation? s).isSome) = true := by
    rcases hend with rfl | h
    · rfl
    · rw [h, Bool.or_true]
  rw [conditionWithin, takeWhile_run hgap hstops, dropWhile_run hgap hstops]
  exact if_pos hcondition

/-- A fragment in front of the rest of its chunk. -/
theorem Chunk.part {chunk : List Char} (hgap : IsGap gap) (hne : t ≠ []) (hstops : Stops isBlank (t ++ s))
    (hrelation : relation? (t ++ s) = none) (hat : at? (t ++ s) = some (t, s))
    (hchunk : Chunk s chunk rest) : Chunk (gap ++ (t ++ s)) (gap ++ (t ++ chunk)) rest := by
  intro fuel hfuel
  obtain ⟨fuel, rfl⟩ := Nat.exists_eq_succ_of_ne_zero (Nat.ne_of_gt (Nat.zero_lt_of_lt hfuel))
  have hpos := List.length_pos_iff.mpr hne
  simp only [List.length_append] at hfuel
  have hcondition : ¬ ((t ++ s).isEmpty || (relation? (t ++ s)).isSome) = true := by
    rw [hrelation]
    simp [hne]
  rw [conditionWithin, takeWhile_run hgap hstops, dropWhile_run hgap hstops]
  dsimp only
  rw [if_neg hcondition, operand_of_at? hat]
  dsimp only
  rw [hchunk fuel (by omega), List.append_assoc]

theorem Chunk.front {chunk : List Char} (hne : t ≠ []) (hstops : Stops isBlank (t ++ s))
    (hrelation : relation? (t ++ s) = none) (hat : at? (t ++ s) = some (t, s))
    (hchunk : Chunk s chunk rest) : Chunk (t ++ s) (t ++ chunk) rest :=
  hchunk.part isGap_nil hne hstops hrelation hat

/-- The chunks and joining words of the text, whatever the fuel. -/
def Chunks (s : List Char) (parts : List (List Char)) : Prop :=
  ∀ fuel, s.length < fuel → conditionsWithin fuel s = parts

theorem chunks_of_isGap (hgap : IsGap gap) : Chunks gap [] := by
  intro fuel hfuel
  obtain ⟨fuel, rfl⟩ := Nat.exists_eq_succ_of_ne_zero (Nat.ne_of_gt (Nat.zero_lt_of_lt hfuel))
  rw [conditionsWithin, trimLeft_of_isGap hgap]
  rfl

theorem Chunks.joining {parts : List (List Char)} (hrelation : relation? s = some (word, rest))
    (hparts : Chunks rest parts) : Chunks s (word :: parts) := by
  intro fuel hfuel
  obtain ⟨fuel, rfl⟩ := Nat.exists_eq_succ_of_ne_zero (Nat.ne_of_gt (Nat.zero_lt_of_lt hfuel))
  obtain ⟨hmem, rfl, -⟩ := relation?_eq_some_iff.mp hrelation
  have hheads : ∀ w ∈ joiningWords, ∃ c more, w = c :: more ∧ isBlank c = false := by
    simp only [joiningWords, List.forall_mem_cons]
    exact ⟨⟨_, _, rfl, by decide⟩, ⟨_, _, rfl, by decide⟩, fun _ h => nomatch h⟩
  obtain ⟨c, more, rfl, hc⟩ := hheads word hmem
  simp only [List.length_append, List.length_cons] at hfuel
  have htrim : trimLeft (c :: more ++ rest) = c :: more ++ rest := trimLeft_of_stops (stops_cons.mpr hc)
  rw [conditionsWithin, htrim]
  dsimp only
  rw [if_neg nofun, hrelation]
  exact congrArg _ (hparts fuel (by omega))

theorem Chunks.chunk {chunk : List Char} {parts : List (List Char)} (hgap : IsGap gap)
    (hstops : Stops isBlank s) (hne : s ≠ []) (hrelation : relation? s = none)
    (hchunk : Chunk s chunk rest) (hlength : rest.length < s.length) (hparts : Chunks rest parts) :
    Chunks (gap ++ s) (chunk :: parts) := by
  intro fuel hfuel
  obtain ⟨fuel, rfl⟩ := Nat.exists_eq_succ_of_ne_zero (Nat.ne_of_gt (Nat.zero_lt_of_lt hfuel))
  rw [List.length_append] at hfuel
  rw [conditionsWithin, trimLeft_gap hgap, trimLeft_of_stops hstops]
  dsimp only
  rw [if_neg (by simpa using hne), hrelation]
  dsimp only
  rw [hchunk _ (Nat.lt_succ_self _)]
  exact congrArg _ (hparts fuel (by omega))

/-! ## Operands and operator of a chunk -/

theorem not_isOperatorChar_of_isBlank (hc : isBlank c = true) : isOperatorChar c = false := by
  cases hop : isOperatorChar c with
  | false => rfl
  | true =>
    have hname : isNameChar c = true ∨ c ∈ ['=', '!', '<', '>'] := by
      simp only [isOperatorChar, Bool.or_eq_true, beq_iff_eq] at hop
      rcases hop with ((((rfl | rfl) | rfl) | rfl) | rfl) | hlower
      · simp
      · simp
      · simp
      · simp
      · exact .inl (by decide)
      · have hstart : (c.isUpper || c.isLower || c == '_') = true := by simp [hlower]
        exact .inl (isNameChar_of_isIdentifierStart hstart)
    rcases hname with h | h
    · rw [isBlank_of_isNameChar h] at hc
      cases hc
    · have hall : ∀ d ∈ ['=', '!', '<', '>'], isBlank d = false := by decide
      rw [hall c h] at hc
      cases hc

theorem comparison?_single (hleft : Operand left) (hgap : IsGap gap) :
    comparison? (left ++ gap) = some (left, none, none) := by
  have hat := hleft.at?_eq (.inl (stops_isInner_of_isGap hgap))
  rw [comparison?, first?_of_at? hat, Option.map_some]
  dsimp only
  rw [trimLeft_of_isGap hgap]
  rfl

theorem comparison?_compared (hleft : Operand left) (hgap : IsGap gap)
    (hfree : gap ≠ [] ∨ IsString left) (hoperator : ∀ c ∈ operator, isOperatorChar c = true)
    (hne : operator ≠ []) (hgap' : IsGap gap') (hright : Operand right)
    (happart : gap' ≠ [] ∨ Stops isOperatorChar right) (hgap'' : IsGap gap'') :
    comparison? (left ++ (gap ++ (operator ++ (gap' ++ (right ++ gap''))))) =
      some (left, some operator, some right) := by
  have hat := hleft.at?_eq (hfree.imp_left fun h =>
    stops_isInner_gap hgap h (operator ++ (gap' ++ (right ++ gap''))))
  have hstart : Stops isBlank (operator ++ (gap' ++ (right ++ gap''))) := by
    obtain ⟨c, more, rfl⟩ := List.exists_cons_of_ne_nil hne
    rw [List.cons_append, stops_cons]
    cases hc : isBlank c with
    | false => rfl
    | true =>
      have := hoperator c List.mem_cons_self
      rw [not_isOperatorChar_of_isBlank hc] at this
      cases this
  have hends : Stops isOperatorChar (gap' ++ (right ++ gap'')) := by
    cases gap' with
    | nil =>
      have hstops := happart.resolve_left fun h => h rfl
      exact hstops.append fun h => absurd h hright.nonempty
    | cons c gap' => exact stops_cons.mpr (not_isOperatorChar_of_isBlank (hgap' c List.mem_cons_self))
  have hatRight := hright.at?_eq (.inl (stops_isInner_of_isGap hgap''))
  rw [comparison?, first?_of_at? hat, Option.map_some]
  dsimp only
  rw [trimLeft_gap hgap, trimLeft_of_stops hstart, takeWhile_run hoperator hends,
    dropWhile_run hoperator hends, trimLeft_gap hgap', trimLeft_of_stops (hright.stops_isBlank gap''),
    hatRight, if_neg (by simpa using hne)]
  rfl

end Fragment

end Stencil
