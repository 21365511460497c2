import Stencil.Markup.Grammar
import Stencil.Proofs.Markup.Spelling

/-!
# Lexemes cover a markup

* `Kind.Matches kind chars`: what the characters of each kind look like, whatever follows them. A character
  starts no lexeme just where no such characters stand in front (`next_eq_none_iff`).
* `Separated markup values`: the markup is these values with blanks between them. All of a markup is covered by
  the lexemes that are found, and so is what stands in front of a character that starts none.
* Behind a blank every lexeme has ended, but for the name that becomes an operator there
  (`Kind.Matches.starts_blank`), and so lexemes that are written with blanks behind them are found again
  (`scan_respaced`).
-/

namespace Stencil

open Text

namespace Lexeme

variable {s chars after : List Char} {c : Char} {kind : Kind} {l : Lexeme}

/-! ## What lexemes of a kind look like -/

/-- The characters are of the kind. An ending has none. -/
inductive Kind.Matches : Kind → List Char → Prop where
  | comparison {chars : List Char} (hchars : chars ∈ operators) : Matches .comparison chars
  | string {q : Char} {content : List Char} (hquote : q = '\'' ∨ q = '"') (hcontent : q ∉ content) :
    Matches .string (q :: content ++ [q])
  | whole {sign digits : List Char} (hsign : sign = [] ∨ sign = ['-']) (hne : digits ≠ [])
    (hdigits : ∀ c ∈ digits, isDecimal c = true) : Matches .number (sign ++ digits)
  | decimal {sign digits part : List Char} (hsign : sign = [] ∨ sign = ['-']) (hne : digits ≠ [])
    (hdigits : ∀ c ∈ digits, isDecimal c = true) (hpart : part ≠ [])
    (hparts : ∀ c ∈ part, isDecimal c = true) : Matches .number (sign ++ digits ++ '.' :: part)
  | identifier {c : Char} {name : List Char} (hstart : isIdentifierStart c = true)
    (hname : ∀ d ∈ name, isNameChar d = true) : Matches .identifier (c :: name)
  /-- An identifier with a question mark. -/
  | asked {c : Char} {name : List Char} (hstart : isIdentifierStart c = true)
    (hname : ∀ d ∈ name, isNameChar d = true) : Matches .identifier (c :: name ++ ['?'])
  | dotdot : Matches .dotdot ['.', '.']
  | single {c : Char} {kind : Kind} (hkind : Kind.ofChar? c = some kind) : Matches kind [c]

theorem Starts.matches (hstarts : Starts l after) : l.kind.Matches l.chars := by
  cases hstarts with
  | comparison hchars => exact .comparison hchars
  | string _ hquote hcontent => exact .string hquote hcontent
  | whole hsign hne hdigits => exact .whole hsign hne hdigits
  | decimal hsign hne hdigits hpart hparts => exact .decimal hsign hne hdigits hpart hparts
  | identifier hstart hname => exact .identifier hstart hname
  | asked _ hstart hname => exact .asked hstart hname
  | dotdot => exact .dotdot
  | single hkind => exact .single hkind

/-- **Behind a blank a lexeme has ended**, and only the word for membership is another one there. -/
theorem Kind.Matches.starts_blank (hmatches : kind.Matches chars)
    (hword : kind = .identifier → chars ≠ containsWord) (s : List Char) : Starts ⟨kind, chars⟩ (' ' :: s) := by
  have hstops {p : Char → Bool} (hp : p ' ' = false) : Stops p (' ' :: s) := stops_cons.mpr hp
  cases hmatches with
  | comparison hchars =>
    exact .comparison hchars ⟨fun _ => hstops (by decide), fun _ => hstops (by decide),
      fun _ => ⟨' ', s, rfl, by decide⟩⟩
  | string hquote hcontent => exact .string _ hquote hcontent
  | whole hsign hne hdigits => exact .whole hsign hne hdigits (hstops (by decide)) (by simp)
  | decimal hsign hne hdigits hpart hparts =>
    exact .decimal hsign hne hdigits hpart hparts (hstops (by decide))
  | identifier hstart hname =>
    exact .identifier hstart hname (hstops (by decide)) fun h => absurd h (hword rfl)
  | asked hstart hname => exact .asked _ hstart hname
  | dotdot => exact .dotdot _
  | single hkind => exact .single hkind (fun _ => hstops (by decide)) fun _ => hstops (by decide)

/-! ## Characters that start a lexeme -/

theorem isSome_comparison? (hchars : chars ∈ operators) (hword : chars ≠ containsWord) (after : List Char) :
    (comparison? (chars ++ after)).isSome = true := by
  simp only [operators, List.mem_cons, List.not_mem_nil, or_false] at hchars
  rcases hchars with rfl | rfl | rfl | rfl | rfl | rfl | rfl | rfl
  case inr.inr.inr.inr.inr.inr.inr => exact absurd rfl hword
  all_goals
    unfold comparison?
    split
    all_goals first | rfl | simp_all

theorem isSome_number? {sign : List Char} (hsign : sign = [] ∨ sign = ['-']) (hdigit : isDecimal c = true)
    (rest : List Char) : (number? (sign ++ c :: rest)).isSome = true := by
  have hread : (unsigned? (c :: rest)).isSome = true := by
    rw [Option.isSome_iff_ne_none, ne_eq, unsigned?_eq_none_iff, stops_cons, hdigit]
    decide
  rcases hsign with rfl | rfl
  · rw [List.nil_append, number?.eq_2 _ ?_]
    · exact hread
    · rintro t ht
      obtain ⟨rfl, -⟩ := List.cons.inj ht
      exact absurd hdigit (by decide)
  · rw [List.singleton_append, number?, Option.isSome_map]
    exact hread

theorem isSome_identifier? (hstart : isIdentifierStart c = true) (rest : List Char) :
    (identifier? (c :: rest)).isSome = true := by
  rw [identifier?, if_pos hstart]
  dsimp only
  split <;> rfl

/-- Characters of any kind start a lexeme, if not always one of that kind. -/
theorem Kind.Matches.isSome_next (hmatches : kind.Matches chars) (after : List Char) :
    (next (chars ++ after)).isSome = true := by
  rw [next_eq]
  simp only [ofRead, Option.isSome_or, Option.isSome_map, Bool.or_eq_true]
  cases hmatches with
  | comparison hchars =>
    by_cases hword : chars = containsWord
    · -- without a blank behind it the word is no operator, but still a name
      rw [hword]
      exact .inr (.inr (.inr (.inl (isSome_identifier? (by decide) _))))
    · exact .inl (isSome_comparison? hchars hword after)
  | string hquote hcontent =>
    rw [List.append_assoc, List.singleton_append, quoted?_string hquote hcontent]
    exact .inr (.inl rfl)
  | whole hsign hne hdigits =>
    obtain ⟨d, digits, rfl⟩ := List.exists_cons_of_ne_nil hne
    rw [List.append_assoc]
    exact .inr (.inr (.inl (isSome_number? hsign (hdigits d List.mem_cons_self) _)))
  | decimal hsign hne hdigits =>
    obtain ⟨d, digits, rfl⟩ := List.exists_cons_of_ne_nil hne
    rw [List.append_assoc, List.append_assoc]
    exact .inr (.inr (.inl (isSome_number? hsign (hdigits d List.mem_cons_self) _)))
  | identifier hstart => exact .inr (.inr (.inr (.inl (isSome_identifier? hstart _))))
  | asked hstart => exact .inr (.inr (.inr (.inl (isSome_identifier? hstart _))))
  | dotdot => exact .inr (.inr (.inr (.inr (.inl rfl))))
  | single hkind =>
    rw [List.singleton_append, single?, hkind]
    exact .inr (.inr (.inr (.inr (.inr rfl))))

/-- **No lexeme is found just where no characters of any kind stand in front.** -/
theorem next_eq_none_iff : next s = none ↔ ∀ kind chars, Kind.Matches kind chars → ¬ chars <+: s := by
  constructor
  · rintro hnone kind chars hmatches ⟨after, rfl⟩
    have hsome := hmatches.isSome_next after
    rw [hnone] at hsome
    cases hsome
  · intro hno
    cases hnext : next s with
    | none => rfl
    | some found =>
      obtain ⟨l, after⟩ := found
      obtain ⟨rfl, hstarts⟩ := starts_of_next hnext
      exact absurd (List.prefix_append _ _) (hno _ _ hstarts.matches)

/-! ## Values and the blanks between them -/

/-- The text is these values in their order, with blanks or nothing in front of each of them and behind the
last. -/
inductive Separated : List Char → List (List Char) → Prop where
  | nil {gap : List Char} (hgap : IsGap gap) : Separated gap []
  | cons {gap value rest : List Char} {values : List (List Char)} (hgap : IsGap gap)
    (hrest : Separated rest values) : Separated (gap ++ (value ++ rest)) (value :: values)

/-- What has been spelled is covered by lexemes, and an ending stands behind them. -/
theorem Spelled.exists_separated {spaced : List Spaced} (hspelled : Spelled s spaced) :
    ∃ ls, spaced.map (·.lexeme) = ls ++ [Lexeme.ending] ∧ (∀ l ∈ ls, l.kind.Matches l.chars) ∧
      Separated s (ls.map (·.chars)) := by
  induction hspelled with
  | ending hgap => exact ⟨[], rfl, List.forall_mem_nil _, .nil hgap⟩
  | @lexeme gap after l spaced hgap hstarts hafter ih =>
    obtain ⟨ls, hls, hmatches, hseparated⟩ := ih
    refine ⟨l :: ls, ?_, List.forall_mem_cons.mpr ⟨hstarts.matches, hmatches⟩, .cons hgap hseparated⟩
    rw [List.map_cons, hls, List.cons_append]

/-- What stands in front of a character that starts no lexeme is covered too. -/
theorem exists_separated_of_scanWithin {fuel : Nat} (hscan : scanWithin fuel s = .error c) :
    ∃ front rest, ∃ ls : List Lexeme, s = front ++ c :: rest ∧ (∀ l ∈ ls, l.kind.Matches l.chars) ∧
      Separated front (ls.map (·.chars)) ∧ isBlank c = false ∧ next (c :: rest) = none := by
  induction fuel generalizing s with
  | zero => cases hscan
  | succ fuel ih =>
    obtain ⟨gap, rest, rfl, hgap, hstops, htrim⟩ := exists_gap s
    rw [scanWithin, htrim] at hscan
    cases rest with
    | nil => cases hscan
    | cons d rest =>
      dsimp only at hscan
      split at hscan
      · next hnext =>
        -- the complaint is about the first character behind the blanks
        cases hscan
        exact ⟨gap, rest, [], rfl, List.forall_mem_nil _, .nil hgap, stops_cons.mp hstops, hnext⟩
      · next l after hnext =>
        obtain ⟨hs, hstarts⟩ := next_eq_some_iff.mp hnext
        cases hlater : scanWithin fuel after with
        | ok others => rw [hlater] at hscan; cases hscan
        | error e =>
          rw [hlater] at hscan
          cases hscan
          obtain ⟨front, rest, ls, rfl, hmatches, hseparated, hblank, hnone⟩ := ih hlater
          refine ⟨gap ++ (l.chars ++ front), rest, l :: ls, ?_,
            List.forall_mem_cons.mpr ⟨hstarts.matches, hmatches⟩, .cons hgap hseparated, hblank, hnone⟩
          rw [hs, List.append_assoc, List.append_assoc]

/-! ## Lexemes with blanks behind them -/

/-- The lexemes with a blank behind each of them. -/
def respaced (ls : List Lexeme) : List Char := ls.flatMap fun l => l.chars ++ [' ']

theorem exists_spelled_respaced {ls : List Lexeme} (hmatches : ∀ l ∈ ls, l.kind.Matches l.chars)
    (hword : ⟨.identifier, containsWord⟩ ∉ ls) {gap : List Char} (hgap : IsGap gap) :
    ∃ spaced, Spelled (gap ++ respaced ls) spaced ∧ spaced.map (·.lexeme) = ls ++ [ending] := by
  -- the blank behind a lexeme is the gap in front of what comes next
  induction ls generalizing gap with
  | nil =>
    rw [respaced, List.flatMap_nil, List.append_nil]
    exact ⟨_, .ending hgap, rfl⟩
  | cons l ls ih =>
    obtain ⟨hl, hmatches⟩ := List.forall_mem_cons.mp hmatches
    obtain ⟨hne, hword⟩ := List.ne_and_not_mem_of_not_mem_cons hword
    have hblank : IsGap [' '] := isGap_cons.mpr ⟨by decide, isGap_nil⟩
    obtain ⟨spaced, hspelled, hspaced⟩ := ih hmatches hword hblank
    have hstarts : Starts l (' ' :: respaced ls) :=
      hl.starts_blank (fun hkind hchars => hne (by rw [← hkind, ← hchars])) _
    rw [respaced, List.flatMap_cons, ← respaced, List.append_assoc]
    exact ⟨_, .lexeme hgap hstarts hspelled, by rw [List.map_cons, hspaced, List.cons_append]⟩

/-- **Lexemes with blanks behind them are found again.** -/
theorem scan_respaced {ls : List Lexeme} (hmatches : ∀ l ∈ ls, l.kind.Matches l.chars)
    (hword : ⟨.identifier, containsWord⟩ ∉ ls) : scan (respaced ls) = .ok (ls ++ [ending]) :=
  scan_eq_ok_iff.mpr (exists_spelled_respaced hmatches hword isGap_nil)

end Lexeme

open Lexeme

/-- **Lexemes cover their markup, and blanks behind them change nothing.** Either a character that starts no
lexeme is complained about, and lexemes cover what stands in front of it; or lexemes cover the whole markup, and
they are found again when each has a blank behind it, unless one is the name that becomes an operator there. -/
theorem lexemes_cover_markup (markup : List Char) :
    (∃ c front rest, ∃ ls : List Lexeme, Grammar.lexemes markup = .error (.unexpectedCharacter c) ∧
      markup = front ++ c :: rest ∧ (∀ l ∈ ls, l.kind.Matches l.chars) ∧ Separated front (ls.map (·.chars)) ∧
      isBlank c = false ∧ ∀ kind chars, Kind.Matches kind chars → ¬ chars <+: c :: rest) ∨
    ∃ ls, Grammar.lexemes markup = .ok (ls ++ [.ending]) ∧ (∀ l ∈ ls, l.kind.Matches l.chars) ∧
      Separated markup (ls.map (·.chars)) ∧
      (⟨.identifier, containsWord⟩ ∉ ls → Grammar.lexemes (respaced ls) = .ok (ls ++ [.ending])) := by
  cases hscan : scan markup with
  | error c =>
    obtain ⟨front, rest, ls, hmarkup, hmatches, hseparated, hblank, hnone⟩ :=
      exists_separated_of_scanWithin hscan
    refine .inl ⟨c, front, rest, ls, ?_, hmarkup, hmatches, hseparated, hblank, next_eq_none_iff.mp hnone⟩
    rw [Grammar.lexemes, hscan, Except.mapError]
  | ok found =>
    obtain ⟨spaced, hspelled, rfl⟩ := scan_eq_ok_iff.mp hscan
    obtain ⟨ls, hls, hmatches, hseparated⟩ := hspelled.exists_separated
    refine .inr ⟨ls, ?_, hmatches, hseparated, fun hword => ?_⟩
    · rw [Grammar.lexemes, hscan, hls, Except.mapError]
    · rw [Grammar.lexemes, scan_respaced hmatches hword, Except.mapError]

/-- A name with a question mark, an operator that is a word, and a number with a sign. -/
theorem lexemes_cover_membership :
    let ls : List Lexeme := [⟨.identifier, ['a', '?']⟩, ⟨.comparison, containsWord⟩, ⟨.number, ['-', '1']⟩]
    Grammar.lexemes " a?contains -1".toList = .ok (ls ++ [.ending]) ∧
      Separated " a?contains -1".toList [['a', '?'], containsWord, ['-', '1']] ∧
      Grammar.lexemes "a? contains -1 ".toList = .ok (ls ++ [.ending]) := by
  intro ls
  have hlexemes : Grammar.lexemes " a?contains -1".toList = .ok (ls ++ [.ending]) := rfl
  rcases lexemes_cover_markup " a?contains -1".toList with ⟨c, _, _, _, herror, -⟩ | ⟨found, hfound, -, hcover⟩
  · rw [hlexemes] at herror
    cases herror
  · obtain rfl : found = ls := by
      rw [hlexemes] at hfound
      exact (List.append_cancel_right (Except.ok.inj hfound)).symm
    exact ⟨hfound, hcover.1, hcover.2 (by decide)⟩

/-- The name at the end of a markup is an operator in front of a blank. -/
example : Grammar.lexemes containsWord = .ok [⟨.identifier, containsWord⟩, .ending] ∧
    Grammar.lexemes (containsWord ++ [' ']) = .ok [⟨.comparison, containsWord⟩, .ending] := ⟨rfl, rfl⟩

end Stencil
