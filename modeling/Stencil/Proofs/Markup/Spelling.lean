import Stencil.Proofs.Markup.Lexemes

/-!
# How lexemes are spelled

* `Spelled s ls`: the text is made of these lexemes, blanks between them, and `ls` tells where there are
  any. A text has at most one such list (`Spelled.spaced_eq`), which `spaced` computes.
* `scan_eq_ok_iff`: the lexemes that are found are the ones a text is spelled with.
-/

namespace Stencil.Lexeme

open Text

/-- A lexeme of a markup, and whether blanks stand in front of it. -/
structure Spaced where
  gap : Bool
  lexeme : Lexeme

/-- The text is made of these lexemes, up to its ending. -/
inductive Spelled : List Char → List Spaced → Prop where
  | ending {gap : List Char} (hgap : IsGap gap) : Spelled gap [⟨!gap.isEmpty, ending⟩]
  | lexeme {gap after : List Char} {l : Lexeme} {ls : List Spaced} (hgap : IsGap gap)
    (hstarts : Starts l after) (hafter : Spelled after ls) :
    Spelled (gap ++ (l.chars ++ after)) (⟨!gap.isEmpty, l⟩ :: ls)

/-- Lexemes of a text, each with whether blanks stand in front of it. -/
def spacedWithin : Nat → List Char → List Spaced
  | 0, _ => []
  | fuel + 1, s =>
    match next (trimLeft s) with
    | none => [⟨!s.isEmpty, ending⟩]
    | some (l, after) => ⟨s.head?.any isBlank, l⟩ :: spacedWithin fuel after

/-- The lexemes of a text up to its ending, each with whether blanks stand in front of it. -/
def spaced (s : List Char) : List Spaced := spacedWithin (s.length + 1) s

variable {s gap after : List Char} {l : Lexeme} {ls : List Spaced}

/-! ## What a lexeme starts with -/

theorem Starts.chars_eq (hstarts : Starts l after) :
    ∃ c rest, l.chars = c :: rest ∧ isBlank c = false := by
  have hdigit {sign digits : List Char} (more : List Char) (hsign : sign = [] ∨ sign = ['-'])
      (hne : digits ≠ []) (hdigits : ∀ c ∈ digits, isDecimal c = true) :
      ∃ c rest, sign ++ digits ++ more = c :: rest ∧ isBlank c = false := by
    obtain ⟨d, digits, rfl⟩ := List.exists_cons_of_ne_nil hne
    rcases hsign with rfl | rfl
    · exact ⟨d, _, rfl, isBlank_of_isDecimal (hdigits d List.mem_cons_self)⟩
    · exact ⟨'-', _, rfl, by decide⟩
  cases hstarts with
  | comparison hchars hends =>
    have hall : ∀ chars ∈ operators, chars.head?.any (!isBlank ·) = true := by decide
    obtain ⟨c, hc, hblank⟩ := (Option.any_eq_true _ _).mp (hall _ hchars)
    obtain ⟨rest, hrest⟩ := List.head?_eq_some_iff.mp hc
    exact ⟨c, rest, hrest, by simpa using hblank⟩
  | string after hquote hcontent =>
    refine ⟨_, _, rfl, ?_⟩
    rcases hquote with rfl | rfl <;> decide
  | whole hsign hne hdigits hends hpoint => simpa using hdigit [] hsign hne hdigits
  | decimal hsign hne hdigits hpart hparts hends => exact hdigit _ hsign hne hdigits
  | identifier hstart hname hends hword =>
    exact ⟨_, _, rfl, isBlank_of_isNameChar (isNameChar_of_isIdentifierStart hstart)⟩
  | asked after hstart hname =>
    exact ⟨_, _, rfl, isBlank_of_isNameChar (isNameChar_of_isIdentifierStart hstart)⟩
  | dotdot after => exact ⟨_, _, rfl, by decide⟩
  | @single c kind after hkind hdot hdash =>
    have hmarks : ∀ m ∈ marks, isBlank m.1 = false := by decide
    exact ⟨c, [], rfl, hmarks _ (Kind.mem_marks hkind)⟩

theorem Starts.ne_ending (hstarts : Starts l after) : l.kind ≠ .ending := by
  cases hstarts with
  | single hchar => exact Kind.ne_of_ofChar? hchar (by decide)
  | _ => nofun

theorem Starts.stops_isBlank (hstarts : Starts l after) (rest : List Char) :
    Stops isBlank (l.chars ++ rest) := by
  obtain ⟨c, chars, hchars, hblank⟩ := hstarts.chars_eq
  rw [hchars, List.cons_append, stops_cons]
  exact hblank

/-- A lexeme takes at least one character, so that fuel is left for those behind it. -/
theorem Starts.length_lt (hstarts : Starts l after) {fuel : Nat}
    (hfuel : (gap ++ (l.chars ++ after)).length < fuel + 1) : after.length < fuel := by
  obtain ⟨c, rest, hchars, -⟩ := hstarts.chars_eq
  rw [hchars] at hfuel
  simp only [List.length_append, List.length_cons] at hfuel
  omega

/-! ## Texts and their lexemes -/

theorem Spelled.cons (hstarts : Starts l after) (hafter : Spelled after ls) :
    Spelled (l.chars ++ after) (⟨false, l⟩ :: ls) :=
  .lexeme isGap_nil hstarts hafter

theorem next_trimLeft_gap (hgap : IsGap gap) (hstarts : Starts l after) :
    trimLeft (gap ++ (l.chars ++ after)) = l.chars ++ after ∧
      next (l.chars ++ after) = some (l, after) := by
  rw [trimLeft_gap hgap, trimLeft_of_stops (hstarts.stops_isBlank after)]
  exact ⟨rfl, next_eq_some_iff.mpr ⟨rfl, hstarts⟩⟩

theorem Spelled.scanWithin_eq (hspelled : Spelled s ls) {fuel : Nat} (hfuel : s.length < fuel) :
    scanWithin fuel s = .ok (ls.map (·.lexeme)) := by
  induction hspelled generalizing fuel with
  | ending hgap =>
    obtain ⟨fuel, rfl⟩ := Nat.exists_eq_succ_of_ne_zero (Nat.ne_of_gt (Nat.zero_lt_of_lt hfuel))
    rw [scanWithin, trimLeft_of_isGap hgap]
    rfl
  | @lexeme gap after l ls hgap hstarts hafter ih =>
    obtain ⟨fuel, rfl⟩ := Nat.exists_eq_succ_of_ne_zero (Nat.ne_of_gt (Nat.zero_lt_of_lt hfuel))
    have hlength : after.length < fuel := hstarts.length_lt hfuel
    obtain ⟨htrim, hnext⟩ := next_trimLeft_gap hgap hstarts
    obtain ⟨c, rest, hchars, -⟩ := hstarts.chars_eq
    rw [hchars, List.cons_append] at htrim hnext
    rw [scanWithin, hchars, List.cons_append, htrim]
    dsimp only
    rw [hnext]
    dsimp only
    rw [ih hlength]
    rfl

theorem exists_spelled_of_scanWithin {fuel : Nat} {lexemes : List Lexeme} (hfuel : s.length < fuel)
    (hscan : scanWithin fuel s = .ok lexemes) :
    ∃ ls, Spelled s ls ∧ ls.map (·.lexeme) = lexemes := by
  induction fuel generalizing s lexemes with
  | zero => exact absurd hfuel (Nat.not_lt_zero _)
  | succ fuel ih =>
    obtain ⟨gap, rest, rfl, hgap, -, htrim⟩ := exists_gap s
    rw [scanWithin, htrim] at hscan
    cases rest with
    | nil =>
      cases hscan
      rw [List.append_nil]
      exact ⟨_, .ending hgap, rfl⟩
    | cons c rest =>
      dsimp only at hscan
      split at hscan
      · cases hscan
      · next l after hnext =>
        obtain ⟨hs, hstarts⟩ := next_eq_some_iff.mp hnext
        cases hlater : scanWithin fuel after with
        | error _ => rw [hlater] at hscan; cases hscan
        | ok others =>
          rw [hlater] at hscan
          cases hscan
          rw [hs] at hfuel ⊢
          obtain ⟨ls, hspelled, rfl⟩ := ih (hstarts.length_lt hfuel) hlater
          exact ⟨_, .lexeme hgap hstarts hspelled, rfl⟩

/-- **Scanning finds what a text is spelled with.** -/
theorem scan_eq_ok_iff {lexemes : List Lexeme} :
    scan s = .ok lexemes ↔ ∃ ls, Spelled s ls ∧ ls.map (·.lexeme) = lexemes := by
  constructor
  · exact exists_spelled_of_scanWithin (Nat.lt_succ_self _)
  · rintro ⟨ls, hspelled, rfl⟩
    exact hspelled.scanWithin_eq (Nat.lt_succ_self _)

theorem head?_any_isBlank (hgap : IsGap gap) {rest : List Char} (hrest : Stops isBlank rest) :
    (gap ++ rest).head?.any isBlank = !gap.isEmpty := by
  cases gap with
  | nil =>
    cases rest with
    | nil => rfl
    | cons c rest => simpa using hrest
  | cons c gap => simpa using hgap c List.mem_cons_self

theorem Spelled.spacedWithin_eq (hspelled : Spelled s ls) {fuel : Nat} (hfuel : s.length < fuel) :
    spacedWithin fuel s = ls := by
  induction hspelled generalizing fuel with
  | ending hgap =>
    obtain ⟨fuel, rfl⟩ := Nat.exists_eq_succ_of_ne_zero (Nat.ne_of_gt (Nat.zero_lt_of_lt hfuel))
    rw [spacedWithin, trimLeft_of_isGap hgap]
    rfl
  | @lexeme gap after l ls hgap hstarts hafter ih =>
    obtain ⟨fuel, rfl⟩ := Nat.exists_eq_succ_of_ne_zero (Nat.ne_of_gt (Nat.zero_lt_of_lt hfuel))
    obtain ⟨htrim, hnext⟩ := next_trimLeft_gap hgap hstarts
    rw [spacedWithin, htrim, hnext]
    dsimp only
    rw [ih (hstarts.length_lt hfuel), head?_any_isBlank hgap (hstarts.stops_isBlank after)]

/-- A text is spelled in one way only. -/
theorem Spelled.spaced_eq (hspelled : Spelled s ls) : spaced s = ls :=
  hspelled.spacedWithin_eq (Nat.lt_succ_self _)

end Stencil.Lexeme
