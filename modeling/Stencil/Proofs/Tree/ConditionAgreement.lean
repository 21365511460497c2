import Stencil.Proofs.Markup.Chunks
import Stencil.Tree.Condition

/-!
# Conditions in both grammars

A condition that the strict grammar reads is read likewise by the tolerant one, if its operands, its
operators and its joining words are spaced so that fragments end where operands do (`spacedFrom`).
-/

namespace Stencil.Condition

open Text Fragment Lexeme Grammar

/-! ## How a condition is spaced -/

/-- Where the next lexeme of a condition stands. -/
inductive Place where
  /-- In front of an operand, which may be compared with the one before it. -/
  | operand (compared : Bool)
  /-- Behind a lexeme of an operand. The operand is free when a fragment starts with it, and not with
  the operator in front of it. -/
  | behind (last : Lexeme) (free : Bool)

/-- The word that a lexeme starts with. -/
def firstWord (l : Lexeme) : List Char := l.chars.takeWhile isWordChar

/-- Whether the lexemes of a condition are spaced so that fragments end where operands do: no operand
starts with a joining word, there are no blanks inside operands, and there are some around operators
and in front of joining words, unless a quoted string or a character of another kind tells them apart. -/
def spacedFrom : Place → List Spaced → Bool
  | _, [] => true
  | .operand compared, y :: ls =>
    !joiningWords.contains (firstWord y.lexeme) &&
      (!compared || y.gap || !y.lexeme.chars.head?.any isOperatorChar) &&
      spacedFrom (.behind y.lexeme (!compared || y.gap)) ls
  | .behind last free, y :: ls =>
    if y.lexeme.kind = .comparison then
      (y.gap || last.kind = .string) && spacedFrom (.operand true) ls
    else if NewWord last y.lexeme then
      (y.gap || last.kind = .string && free) && spacedFrom (.operand false) ls
    else if y.lexeme.kind = .ending then true
    else !y.gap && spacedFrom (.behind y.lexeme free) ls

variable {s after : List Char} {ls front back : List Spaced} {rest : Rest} {compared free : Bool}
  {x : Lexeme}

/-- Inside an operand there are no blanks. -/
theorem spacedFrom_behind (hspaced : spacedFrom (.behind x free) (front ++ back) = true)
    (hchain : (x :: front.map (·.lexeme)).IsChain fun x y => ¬ NewWord x y)
    (hkinds : ∀ y ∈ front, y.lexeme.kind ∈ innerKinds) :
    (∀ y ∈ front, y.gap = false) ∧
      spacedFrom (.behind ((front.map (·.lexeme)).getLastD x) free) back = true := by
  -- induction on the lexemes behind the first one, none of which starts a new word
  induction front generalizing x with
  | nil => exact ⟨by simp, hspaced⟩
  | cons y front ih =>
    obtain ⟨hy, hkinds⟩ := List.forall_mem_cons.mp hkinds
    rw [List.map_cons] at hchain
    obtain ⟨hnew, hchain⟩ := List.isChain_cons_cons.mp hchain
    have hinner : ∀ kind ∈ innerKinds, kind ≠ .comparison ∧ kind ≠ .ending := by decide
    obtain ⟨hcomparison, hending⟩ := hinner _ hy
    rw [List.cons_append, spacedFrom, if_neg hcomparison, if_neg hnew, if_neg hending,
      Bool.and_eq_true, Bool.not_eq_true'] at hspaced
    obtain ⟨hgaps, hback⟩ := ih hspaced.2 hchain hkinds
    refine ⟨List.forall_mem_cons.mpr ⟨hspaced.1, hgaps⟩, ?_⟩
    rwa [List.map_cons, List.getLastD_cons]

/-- An operand at the front of the lexemes of a text, and what the spacing says about it. -/
structure FirstOperand (s : List Char) (ls : List Spaced) (compared : Bool) (t : List Char) (rest : Rest)
    (gap after : List Char) (back : List Spaced) (last : Lexeme) : Prop where
  text : s = gap ++ (t ++ after)
  isGap : IsGap gap
  operand : Operand t
  noWord : relation? (t ++ after) = none
  apart : compared = true → gap ≠ [] ∨ Stops isOperatorChar t
  spelled : Spelled after back
  lexemes : back.map (·.lexeme) = rest
  shorter : back.length < ls.length
  spaced : spacedFrom (.behind last (!compared || !gap.isEmpty)) back = true
  complete : last.kind ∈ endingKinds
  string : last.kind = .string → IsString t

/-- Only identifiers start like joining words. -/
theorem head_of_starts (hstarts : Starts x after) (hkind : x.kind ≠ .identifier) :
    ∀ c ∈ x.chars.head?, c ≠ 'a' ∧ c ≠ 'o' := by
  have hnumber {sign digits : List Char} (more : List Char) (hsign : sign = [] ∨ sign = ['-'])
      (hne : digits ≠ []) (hdigits : ∀ c ∈ digits, isDecimal c = true) :
      ∀ c ∈ (sign ++ digits ++ more).head?, c ≠ 'a' ∧ c ≠ 'o' := by
    obtain ⟨d, digits, rfl⟩ := List.exists_cons_of_ne_nil hne
    rcases hsign with rfl | rfl
    · rintro _ ⟨⟩
      have hd := hdigits d List.mem_cons_self
      constructor <;> rintro rfl <;> exact absurd hd (by decide)
    · rintro _ ⟨⟩
      decide
  cases hstarts with
  | comparison hchars _ =>
    have hall : ∀ chars ∈ operators, ∀ c ∈ chars.head?, c ≠ 'a' ∧ c ≠ 'o' := by decide
    exact hall _ hchars
  | string after hquote _ =>
    rintro _ ⟨⟩
    rcases hquote with rfl | rfl <;> decide
  | whole hsign hne hdigits _ _ => simpa using hnumber [] hsign hne hdigits
  | decimal hsign hne hdigits _ _ _ => exact hnumber _ hsign hne hdigits
  | identifier | asked => exact absurd rfl hkind
  | dotdot =>
    rintro _ ⟨⟩
    decide
  | @single c kind after hchar _ _ =>
    rintro _ ⟨⟩
    constructor <;> rintro rfl <;> cases hchar

/-- No joining word stands where an operand starts. -/
theorem relation?_eq_none_of_starts (hstarts : Starts x after) (hword : firstWord x ∉ joiningWords) :
    relation? (x.chars ++ after) = none := by
  by_cases hkind : x.kind = .identifier
  · refine relation?_eq_none ?_
    obtain ⟨run, tail, hchars, hrun, htail, htake, -⟩ := exists_run isWordChar x.chars
    have hstops : Stops isWordChar (tail ++ after) := by
      refine htail.append fun hnil => ?_
      have hasked : '?' ∉ x.chars := by
        rw [hchars, hnil, List.append_nil]
        exact fun h => absurd (hrun _ h) (by decide)
      exact (hstarts.stops_isNameChar hkind hasked).of_imp fun c hc => by simp [isNameChar, hc]
    rw [hchars, List.append_assoc, takeWhile_run hrun hstops, ← htake]
    exact hword
  · obtain ⟨c, chars, hchars, -⟩ := hstarts.chars_eq
    refine relation?_eq_none_of_head ?_
    have hhead := head_of_starts hstarts hkind
    rw [hchars] at hhead ⊢
    exact hhead

/-- What the strict grammar reads as an expression is such an operand. -/
theorem exists_firstOperand {t : List Char} (hspelled : Spelled s ls)
    (hspaced : spacedFrom (.operand compared) ls = true)
    (hread : expression (ls.map (·.lexeme)) = .ok (t, rest)) :
    ∃ gap after back last, FirstOperand s ls compared t rest gap after back last := by
  obtain ⟨front, back, rfl, rfl, hforms, rfl, hoperand, hsplit⟩ := exists_operand hspelled hread
  cases front with
  | nil =>
    obtain ⟨l, more, hnil, -⟩ := hforms.head
    cases hnil
  | cons y more =>
    rw [List.cons_append, spacedFrom, Bool.and_eq_true, Bool.and_eq_true] at hspaced
    obtain ⟨⟨hword, happart⟩, hspaced⟩ := hspaced
    have hkinds : ∀ z ∈ more, z.lexeme.kind ∈ innerKinds := fun z hz =>
      hforms.kinds _ (List.mem_map_of_mem (List.mem_cons_of_mem _ hz))
    obtain ⟨htight, hspaced⟩ := spacedFrom_behind hspaced hforms.isChain hkinds
    obtain ⟨gap, after, rfl, hgap, hhead, hafter⟩ := hsplit htight
    have hy : y.gap = !gap.isEmpty := hhead y rfl
    rw [hy] at hspaced happart
    -- the last lexeme of the operand is where the spacing goes on
    have hlast := hforms.getLast ((more.map (·.lexeme)).getLastD y.lexeme) (by
      rw [List.map_cons, List.getLast?_cons, List.getLastD_eq_getLast?]
      rfl)
    have hstarts : Starts y.lexeme (tightSpelling more ++ after) := by
      have htext : tightSpelling (y :: more) ++ after = y.lexeme.chars ++ (tightSpelling more ++ after) :=
        List.append_assoc _ _ _
      have hstops := hoperand.stops_isBlank after
      rw [htext] at hspelled hstops
      refine hspelled.starts_of_eq hgap hstops fun h => ?_
      have := hforms.kinds y.lexeme List.mem_cons_self
      rw [h] at this
      exact absurd this (by decide)
    obtain ⟨c, chars, hchars, -⟩ := hstarts.chars_eq
    refine ⟨gap, after, back, _, rfl, hgap, hoperand, ?_, fun hcompared => ?_, hafter, rfl, ?_, hspaced,
      hlast.1, fun hstring => ?_⟩
    · have hnone := relation?_eq_none_of_starts hstarts (by simpa using hword)
      rwa [← List.append_assoc] at hnone
    · rw [hcompared, hchars] at happart
      have happart : gap ≠ [] ∨ isOperatorChar c = false := by simpa using happart
      refine happart.imp_right fun h => ?_
      show Stops isOperatorChar (y.lexeme.chars ++ tightSpelling more)
      rw [hchars]
      exact stops_cons.mpr h
    · simp only [List.length_append, List.length_cons]
      omega
    · have hone := (hlast.2 hstring).2
      rw [List.map_cons] at hone
      obtain ⟨hy, hmore⟩ := List.cons.inj hone
      rw [hmore, List.getLastD_nil] at hstring
      have hnil : more = [] := List.map_eq_nil_iff.mp hmore
      subst hnil
      have htext : tightSpelling [y] = y.lexeme.chars := List.append_nil _
      rw [htext]
      exact hstarts.isString hstring

/-! ## Comparisons -/

/-- The rest of a condition joins another comparison, or there is none. -/
def Joins (ls : Rest) : Prop :=
  currentKind ls = .ending ∨ ∃ word ∈ joiningWords, current ls = ⟨.identifier, word⟩

/-- The text goes on with another comparison, or it ends. -/
inductive Continues : List Char → List Spaced → Prop where
  | done (gap : Bool) : Continues [] [⟨gap, .ending⟩]
  | join {after rest word : List Char} {gap : Bool} {ls : List Spaced} (hword : word ∈ joiningWords)
    (hrelation : relation? after = some (word, rest)) (hspelled : Spelled rest ls)
    (hspaced : spacedFrom (.operand false) ls = true) :
    Continues after (⟨gap, ⟨.identifier, word⟩⟩ :: ls)

/-- Behind a complete operand the text goes on, and the operand can be told apart. -/
theorem exists_continues (hspelled : Spelled s ls) (hspaced : spacedFrom (.behind x free) ls = true)
    (hx : x.kind ∈ endingKinds) (hjoins : Joins (ls.map (·.lexeme))) :
    ∃ gap after, s = gap ++ after ∧ IsGap gap ∧ Stops isBlank after ∧ Continues after ls ∧
      (after = [] ∨ (relation? after).isSome = true) ∧
      (after = [] ∨ gap ≠ [] ∨ x.kind = .string ∧ free = true) := by
  cases hspelled with
  | ending hgap =>
    exact ⟨s, [], by simp, hgap, stops_nil, .done _, .inl rfl, .inl rfl⟩
  | @lexeme gap after l ls hgap hstarts hafter =>
    rcases hjoins with hending | ⟨word, hword, hl⟩
    · exact absurd hending hstarts.ne_ending
    · have hl : l = ⟨.identifier, word⟩ := hl
      subst hl
      have hasked : '?' ∉ word := by
        have hall : ∀ word ∈ joiningWords, '?' ∉ word := by decide
        exact hall word hword
      have hstops : Stops isWordChar after :=
        (hstarts.stops_isNameChar rfl hasked).of_imp fun c hc => by simp [isNameChar, hc]
      have hrelation : relation? (word ++ after) = some (word, after) :=
        relation?_eq_some_iff.mpr ⟨hword, rfl, hstops⟩
      rw [spacedFrom, if_neg (show Kind.identifier ≠ .comparison by decide),
        if_pos (show NewWord x ⟨.identifier, word⟩ from ⟨hx, rfl⟩), Bool.and_eq_true] at hspaced
      refine ⟨gap, word ++ after, rfl, hgap, hstarts.stops_isBlank after,
        .join hword hrelation hafter hspaced.2, .inr (by rw [hrelation]; rfl), .inr ?_⟩
      simpa using hspaced.1

/-- What a lexeme that compares is. -/
structure Compares (operator : List Char) : Prop where
  chars : ∀ c ∈ operator, isOperatorChar c = true
  plain : ∀ c ∈ operator, isPlain c = true
  nonempty : operator ≠ []
  head : ∀ c ∈ operator.head?, c ≠ 'a' ∧ c ≠ 'o'

theorem compares_of_starts (hstarts : Starts x after) (hkind : x.kind = .comparison) :
    Compares x.chars := by
  cases hstarts with
  | comparison hchars _ =>
    have hall : ∀ chars ∈ operators, (∀ c ∈ chars, isOperatorChar c = true) ∧
        (∀ c ∈ chars, isPlain c = true) ∧ chars ≠ [] ∧ ∀ c ∈ chars.head?, c ≠ 'a' ∧ c ≠ 'o' := by
      decide
    obtain ⟨h₁, h₂, h₃, h₄⟩ := hall _ hchars
    exact ⟨h₁, h₂, h₃, h₄⟩
  | single hchar => exact absurd hkind (Kind.ne_of_ofChar? hchar (by decide))
  | _ => cases hkind

/-- An operator, and maybe an operand right behind it, is a fragment of its own. -/
theorem Compares.chunk {operator t chunk : List Char} (h : Compares operator) {gap : List Char}
    (hgap : IsGap gap) (ht : Pieces isPlain t) (hstops : Stops isInner s)
    (hchunk : Chunk s chunk after) :
    Chunk (gap ++ (operator ++ t ++ s)) (gap ++ (operator ++ t ++ chunk)) after := by
  obtain ⟨c, more, rfl⟩ := List.exists_cons_of_ne_nil h.nonempty
  obtain ⟨hinner, hquote⟩ := isPlain_iff.mp (h.plain c List.mem_cons_self)
  have hpieces : Pieces isPlain (c :: more ++ t) := (Pieces.of_forall h.plain).append ht
  refine Chunk.part hgap nofun (stops_cons.mpr (isBlank_of_isInner hinner))
    (relation?_eq_none_of_head h.head) (at?_run hpieces nofun (stops_cons.mpr hquote) hstops) hchunk

/-- The text holds a chunk that is read as the comparison, and what follows goes on. -/
structure HoldsComparison (s : List Char) (ls : List Spaced) (comparison : Comparison) (rest : Rest)
    (gap body chunk after : List Char) (back : List Spaced) : Prop where
  text : s = gap ++ body
  isGap : IsGap gap
  stops : Stops isBlank body
  noWord : relation? body = none
  isChunk : Chunk body chunk after
  shorter : after.length < body.length
  read : ∀ tag, readFragment tag chunk = .ok comparison
  continues : Continues after back
  lexemes : back.map (·.lexeme) = rest
  fewer : back.length < ls.length

theorem HoldsComparison.ne_nil {comparison : Comparison} {gap body chunk : List Char}
    (h : HoldsComparison s ls comparison rest gap body chunk after back) : body ≠ [] := by
  rintro rfl
  exact absurd h.shorter (Nat.not_lt_zero _)

theorem FirstOperand.ne_nil {t gap : List Char} {back : List Spaced} {last : Lexeme}
    (h : FirstOperand s ls compared t rest gap after back last) : t ≠ [] := h.operand.nonempty

theorem exists_single {t gap : List Char} {last : Lexeme} {left : Expr}
    (h : FirstOperand s ls false t rest gap after back last) (hleft : Expr.read t = .ok left)
    (hjoins : Joins rest) :
    ∃ gap body chunk after back, HoldsComparison s ls { left } rest gap body chunk after back := by
  obtain ⟨gap', after', rfl, hgap', hstops, hcontinues, hend, hfree⟩ :=
    exists_continues h.spelled h.spaced h.complete (by rw [h.lexemes]; exact hjoins)
  have hat : at? (t ++ (gap' ++ after')) = some (t, gap' ++ after') := by
    refine h.operand.at?_eq ?_
    rcases hfree with rfl | hne | ⟨hstring, -⟩
    · rw [List.append_nil]
      exact .inl (stops_isInner_of_isGap hgap')
    · exact .inl (stops_isInner_gap hgap' hne after')
    · exact .inr (h.string hstring)
  refine ⟨gap, t ++ (gap' ++ after'), t ++ gap', after', back, h.text, h.isGap,
    h.operand.stops_isBlank _, h.noWord, ?_, ?_, fun tag => ?_, hcontinues, h.lexemes, h.shorter⟩
  · exact Chunk.front h.ne_nil (h.operand.stops_isBlank _) h.noWord hat (.stop hgap' hstops hend)
  · have := List.length_pos_iff.mpr h.ne_nil
    simp only [List.length_append]
    omega
  · rw [readFragment, comparison?_single h.operand hgap']
    exact bind_eq_ok_iff.mpr ⟨left, hleft, rfl⟩

theorem exists_compared {t gap t₂ : List Char} {last : Lexeme} {y : Spaced} {left right : Expr} {rest₂ : Rest}
    (h : FirstOperand s ls false t rest gap after (y :: back) last) (hleft : Expr.read t = .ok left)
    (hy : y.lexeme.kind = .comparison) (hread : expression (back.map (·.lexeme)) = .ok (t₂, rest₂))
    (hright : Expr.read t₂ = .ok right) (hjoins : Joins rest₂) :
    ∃ gap body chunk after back, HoldsComparison s ls
      { left, operator := some (String.ofList y.lexeme.chars), right } rest₂ gap body chunk after back := by
  have hspaced := h.spaced
  rw [spacedFrom, if_pos hy, Bool.and_eq_true] at hspaced
  obtain ⟨hbefore, hspaced⟩ := hspaced
  obtain ⟨gap₁, after₁, rfl, hgap₁, hyGap, hstarts, hspelled⟩ := h.spelled.cons_eq fun heq => by
    rw [heq] at hy
    cases hy
  obtain ⟨gap₂, after₂, back₂, last₂, h₂⟩ := exists_firstOperand hspelled hspaced hread
  obtain ⟨gap₃, after₃, rfl, hgap₃, hstops, hcontinues, hend, hfree⟩ :=
    exists_continues h₂.spelled h₂.spaced h₂.complete (by rw [h₂.lexemes]; exact hjoins)
  have htext := h₂.text
  subst htext
  have hop := compares_of_starts hstarts hy
  -- the first operand ends in front of the operator, the second one in front of what follows
  have hapart : gap₁ ≠ [] ∨ IsString t := by
    rw [hyGap] at hbefore
    have hbefore : gap₁ ≠ [] ∨ last.kind = .string := by simpa using hbefore
    exact hbefore.imp_right h.string
  have hrest : Stops isInner (gap₃ ++ after₃) ∨ IsString t₂ ∧ gap₂ ≠ [] := by
    rcases hfree with rfl | hne | ⟨hstring, hfree⟩
    · rw [List.append_nil]
      exact .inl (stops_isInner_of_isGap hgap₃)
    · exact .inl (stops_isInner_gap hgap₃ hne after₃)
    · exact .inr ⟨h₂.string hstring, by simpa using hfree⟩
  -- the operator and the second operand are two fragments or one, as blanks stand between them
  have hback : Chunk (gap₁ ++ (y.lexeme.chars ++ (gap₂ ++ (t₂ ++ (gap₃ ++ after₃)))))
      (gap₁ ++ (y.lexeme.chars ++ (gap₂ ++ (t₂ ++ gap₃)))) after₃ := by
    have hstop : Chunk (gap₃ ++ after₃) gap₃ after₃ := .stop hgap₃ hstops hend
    by_cases hgap : gap₂ = []
    · subst hgap
      have hends := hrest.resolve_right fun h => h.2 rfl
      simpa using hop.chunk hgap₁ h₂.operand.runs hends hstop
    · have hat := h₂.operand.at?_eq (hrest.imp_right And.left)
      have hpart := hstop.part h₂.isGap h₂.ne_nil (h₂.operand.stops_isBlank _) h₂.noWord hat
      simpa using hop.chunk hgap₁ .nil (stops_isInner_gap h₂.isGap hgap _) hpart
  have hat := h.operand.at?_eq (hapart.imp_left fun hne =>
    stops_isInner_gap hgap₁ hne (y.lexeme.chars ++ (gap₂ ++ (t₂ ++ (gap₃ ++ after₃)))))
  refine ⟨gap, _, t ++ (gap₁ ++ (y.lexeme.chars ++ (gap₂ ++ (t₂ ++ gap₃)))), after₃, back₂, h.text, h.isGap,
    h.operand.stops_isBlank _, h.noWord, ?_, ?_, fun tag => ?_, hcontinues, h₂.lexemes, ?_⟩
  · exact Chunk.front h.ne_nil (h.operand.stops_isBlank _) h.noWord hat hback
  · have := List.length_pos_iff.mpr h.ne_nil
    simp only [List.length_append]
    omega
  · rw [readFragment, comparison?_compared h.operand hgap₁ hapart hop.chars hop.nonempty h₂.isGap
      h₂.operand (h₂.apart rfl) hgap₃]
    exact bind_eq_ok_iff.mpr ⟨left, hleft, bind_eq_ok_iff.mpr ⟨right, hright, rfl⟩⟩
  · have := h.shorter
    have := h₂.shorter
    simp only [List.length_cons] at *
    omega

theorem exists_comparison {comparison : Comparison} (hspelled : Spelled s ls)
    (hspaced : spacedFrom (.operand false) ls = true)
    (hread : readComparison (ls.map (·.lexeme)) = .ok (comparison, rest)) (hjoins : Joins rest) :
    ∃ gap body chunk after back, HoldsComparison s ls comparison rest gap body chunk after back := by
  obtain ⟨⟨t, afterT⟩, ht, hread⟩ := bind_eq_ok_iff.mp hread
  obtain ⟨left, hleft, hread⟩ := bind_eq_ok_iff.mp hread
  obtain ⟨gap, after, back, last, h⟩ := exists_firstOperand hspelled hspaced (mapError_eq_ok_iff.mp ht)
  split at hread
  · cases hread
    exact exists_single h hleft hjoins
  · next htake =>
    have hlexemes := h.lexemes
    subst hlexemes
    obtain ⟨y, back, rfl, hy, heq⟩ := exists_of_take? htake (by decide)
    cases heq
    obtain ⟨⟨t₂, rest₂⟩, ht₂, hread⟩ := bind_eq_ok_iff.mp hread
    obtain ⟨right, hright, hread⟩ := bind_eq_ok_iff.mp hread
    cases hread
    exact exists_compared h hleft hy (mapError_eq_ok_iff.mp ht₂) hright hjoins

/-! ## Chains of comparisons -/

theorem joining_cons {word : List Char} (hword : word ∈ joiningWords) (ls : Rest) :
    (word? "and" (⟨.identifier, word⟩ :: ls)).or (word? "or" (⟨.identifier, word⟩ :: ls)) =
      some (word, ls) := by
  simp only [joiningWords, List.mem_cons, List.not_mem_nil, or_false] at hword
  rcases hword with rfl | rfl <;> rfl

theorem joining_eq_some {ls : Rest} {found : List Char × Rest}
    (h : (word? "and" ls).or (word? "or" ls) = some found) :
    ∃ word ∈ joiningWords, current ls = ⟨.identifier, word⟩ ∧ found = (word, ls.tail) := by
  rcases Option.or_eq_some_iff.mp h with h | ⟨-, h⟩
  · exact ⟨['a', 'n', 'd'], by decide, word?_eq_some h⟩
  · exact ⟨['o', 'r'], by decide, word?_eq_some h⟩

theorem joins_of_readComparisons {fuel : Nat} {ls : Rest} {links : List (String × Comparison)}
    (hread : readComparisons fuel ls = .ok links) (hfuel : 0 < fuel) : Joins ls := by
  obtain ⟨fuel, rfl⟩ := Nat.exists_eq_succ_of_ne_zero (Nat.ne_of_gt hfuel)
  rw [readComparisons] at hread
  split at hread
  · next word rest hfound =>
    obtain ⟨word, hmem, hcurrent, -⟩ := joining_eq_some hfound
    exact .inr ⟨word, hmem, hcurrent⟩
  · obtain ⟨taken, htake, -⟩ := bind_eq_ok_iff.mp hread
    exact .inl (currentKind_of_take (mapError_eq_ok_iff.mp htake))

/-- The further comparisons of a chain. -/
theorem exists_chunks {fuel : Nat} {links : List (String × Comparison)} (hcontinues : Continues s ls)
    (hread : readComparisons fuel (ls.map (·.lexeme)) = .ok links) (hfuel : ls.length ≤ fuel) :
    ∃ parts, Chunks s parts ∧ ∀ tag, readLinks tag parts = .ok links := by
  -- induction on the fuel, of which there is one unit for each lexeme
  induction fuel generalizing s ls links with
  | zero =>
    cases List.eq_nil_of_length_eq_zero (Nat.le_zero.mp hfuel)
    cases hcontinues
  | succ fuel ih =>
    rw [readComparisons] at hread
    cases hcontinues with
    | done gap =>
      cases hread
      exact ⟨[], chunks_of_isGap isGap_nil, fun _ => rfl⟩
    | @join _ after word gap ls hword hrelation hspelled hspaced =>
      rw [List.map_cons, joining_cons hword] at hread
      obtain ⟨⟨next, rest⟩, hnext, hread⟩ := bind_eq_ok_iff.mp hread
      obtain ⟨more, hmore, hread⟩ := bind_eq_ok_iff.mp hread
      cases hread
      have hpos : 0 < fuel := by
        cases hspelled <;> simp only [List.length_cons] at hfuel <;> omega
      obtain ⟨gap, body, chunk, after, back, h⟩ := exists_comparison hspelled hspaced hnext
        (joins_of_readComparisons hmore hpos)
      have hlexemes := h.lexemes
      subst hlexemes
      have hlength := h.fewer
      rw [List.length_cons] at hfuel
      obtain ⟨parts, hchunks, hlinks⟩ := ih h.continues hmore (by omega)
      refine ⟨word :: chunk :: parts, ?_, fun tag => ?_⟩
      · refine .joining hrelation ?_
        rw [h.text]
        exact hchunks.chunk h.isGap h.stops h.ne_nil h.noWord h.isChunk h.shorter
      · have hknown : ¬ (word != ['a', 'n', 'd'] && word != ['o', 'r']) = true := by
          simp only [joiningWords, List.mem_cons, List.not_mem_nil, or_false] at hword
          rcases hword with rfl | rfl <;> decide
        rw [readLinks, if_neg hknown]
        exact bind_eq_ok_iff.mpr ⟨next, h.read tag, bind_eq_ok_iff.mpr ⟨more, hlinks tag, rfl⟩⟩

/-- **Conditions mean the same in both grammars**, when the strict one reads them and their lexemes are
spaced so. -/
theorem readLax_of_readStrict {markup : List Char} {condition : Condition}
    (hstrict : readStrict markup = .ok condition)
    (hspaced : spacedFrom (.operand false) (spaced markup) = true) (tag : String) :
    readLax tag markup = .ok condition := by
  obtain ⟨lexemes, hlexemes, hread⟩ := bind_eq_ok_iff.mp hstrict
  obtain ⟨ls, hspelled, rfl⟩ :=
    scan_eq_ok_iff.mp (mapError_eq_ok_iff.mp (mapError_eq_ok_iff.mp hlexemes))
  rw [hspelled.spaced_eq] at hspaced
  obtain ⟨⟨first, rest⟩, hfirst, hread⟩ := bind_eq_ok_iff.mp hread
  obtain ⟨links, hlinks, hread⟩ := bind_eq_ok_iff.mp hread
  cases hread
  obtain ⟨gap, body, chunk, after, back, h⟩ := exists_comparison hspelled hspaced hfirst
    (joins_of_readComparisons hlinks (Nat.succ_pos _))
  have hlexemes := h.lexemes
  subst hlexemes
  obtain ⟨parts, hchunks, hreads⟩ := exists_chunks h.continues hlinks (by simp)
  have hparts : conditions markup = chunk :: parts := by
    rw [conditions, h.text]
    exact hchunks.chunk h.isGap h.stops h.ne_nil h.noWord h.isChunk h.shorter _ (Nat.lt_succ_self _)
  rw [readLax, hparts]
  exact bind_eq_ok_iff.mpr ⟨first, h.read tag, bind_eq_ok_iff.mpr ⟨links, hreads tag, rfl⟩⟩

end Stencil.Condition
