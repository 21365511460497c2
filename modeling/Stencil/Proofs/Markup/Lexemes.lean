import Mathlib.Data.List.TakeDrop
import Stencil.Markup.Lexeme
import Stencil.Proofs.Text.Classes
import Stencil.Proofs.Text.Spans

/-!
# What a lexeme is

* `Starts l after` says, for each kind of lexeme, what its characters are and what may follow them: a
  lexeme is the longest one of its kind, and a kind gives way to those that are tried before it.
* `next_eq_some_iff`: the lexeme a text starts with is the one that is found.
-/

namespace Stencil.Lexeme

open Text

/-- The comparison operators. -/
def operators : List (List Char) :=
  [['=', '='], ['!', '='], ['<', '>'], ['<', '='], ['<'], ['>', '='], ['>'], containsWord]

/-- Operators that are fronts of longer ones end where those do not go on, and the word needs a blank. -/
structure OperatorEnds (chars after : List Char) : Prop where
  less : chars = ['<'] → Stops (fun c => c == '>' || c == '=') after
  greater : chars = ['>'] → Stops (· == '=') after
  word : chars = containsWord → ∃ c rest, after = c :: rest ∧ isBlank c = true

/-- The lexeme stands in front of what follows it. -/
inductive Starts : Lexeme → List Char → Prop where
  | comparison {chars after : List Char} (hchars : chars ∈ operators)
    (hends : OperatorEnds chars after) : Starts ⟨.comparison, chars⟩ after
  | string {q : Char} {content : List Char} (after : List Char) (hquote : q = '\'' ∨ q = '"')
    (hcontent : q ∉ content) : Starts ⟨.string, q :: content ++ [q]⟩ after
  | whole {sign digits after : List Char} (hsign : sign = [] ∨ sign = ['-']) (hne : digits ≠ [])
    (hdigits : ∀ c ∈ digits, isDecimal c = true) (hends : Stops isDecimal after)
    (hpoint : ∀ rest, after = '.' :: rest → Stops isDecimal rest) :
    Starts ⟨.number, sign ++ digits⟩ after
  | decimal {sign digits part after : List Char} (hsign : sign = [] ∨ sign = ['-'])
    (hne : digits ≠ []) (hdigits : ∀ c ∈ digits, isDecimal c = true) (hpart : part ≠ [])
    (hparts : ∀ c ∈ part, isDecimal c = true) (hends : Stops isDecimal after) :
    Starts ⟨.number, sign ++ digits ++ '.' :: part⟩ after
  | identifier {c : Char} {name after : List Char} (hstart : isIdentifierStart c = true)
    (hname : ∀ d ∈ name, isNameChar d = true) (hends : Stops (fun d => isNameChar d || d == '?') after)
    (hword : c :: name = containsWord → Stops isBlank after) :
    Starts ⟨.identifier, c :: name⟩ after
  /-- An identifier with a question mark. -/
  | asked {c : Char} {name : List Char} (after : List Char) (hstart : isIdentifierStart c = true)
    (hname : ∀ d ∈ name, isNameChar d = true) : Starts ⟨.identifier, c :: name ++ ['?']⟩ after
  | dotdot (after : List Char) : Starts ⟨.dotdot, ['.', '.']⟩ after
  | single {c : Char} {kind : Kind} {after : List Char} (hkind : Kind.ofChar? c = some kind)
    (hdot : c = '.' → Stops (· == '.') after) (hdash : c = '-' → Stops isDecimal after) :
    Starts ⟨kind, [c]⟩ after

/-! ## Single characters -/

/-- The characters that are lexemes by themselves, and their kinds. -/
def marks : List (Char × Kind) :=
  [('|', .pipe), ('.', .dot), (':', .colon), (',', .comma), ('[', .openSquare), (']', .closeSquare),
    ('(', .openRound), (')', .closeRound), ('?', .question), ('-', .dash)]

theorem Kind.mem_marks {c : Char} {kind : Kind} (hchar : ofChar? c = some kind) : (c, kind) ∈ marks := by
  unfold ofChar? at hchar
  split at hchar <;> cases hchar <;> decide

/-- The kinds of longer lexemes belong to no character. -/
theorem Kind.ne_of_ofChar? {c : Char} {kind other : Kind} (hchar : ofChar? c = some kind)
    (hother : other ∉ marks.map (·.2)) : kind ≠ other := by
  rintro rfl
  exact hother (List.mem_map_of_mem (mem_marks hchar))

/-! ## Readers of one kind -/

variable {s chars after : List Char}

theorem comparison?_eq_some (hread : comparison? s = some (chars, after)) :
    s = chars ++ after ∧ Starts ⟨.comparison, chars⟩ after := by
  have hno {chars after : List Char} (hchars : chars ∈ operators) (h₁ : chars ≠ ['<'])
      (h₂ : chars ≠ ['>']) (h₃ : chars ≠ containsWord) : Starts ⟨.comparison, chars⟩ after :=
    .comparison hchars ⟨fun h => absurd h h₁, fun h => absurd h h₂, fun h => absurd h h₃⟩
  fun_cases comparison? s with
  | case1 | case2 | case3 | case4 | case6 =>
    simp only [comparison?, Option.some.injEq, Prod.mk.injEq] at hread
    obtain ⟨rfl, rfl⟩ := hread
    exact ⟨rfl, hno (by decide) (by decide) (by decide) (by decide)⟩
  | case5 rest hgreater hequal =>
    rw [comparison?.eq_5 rest hgreater hequal, Option.some.injEq, Prod.mk.injEq] at hread
    obtain ⟨rfl, rfl⟩ := hread
    refine ⟨rfl, .comparison (by decide) ⟨fun _ => ?_, nofun, nofun⟩⟩
    cases rest with
    | nil => exact stops_nil
    | cons d rest =>
      have hd : d ≠ '>' ∧ d ≠ '=' :=
        ⟨fun h => hgreater rest (by rw [h]), fun h => hequal rest (by rw [h])⟩
      simpa using hd
  | case7 rest hequal =>
    rw [comparison?.eq_7 rest hequal, Option.some.injEq, Prod.mk.injEq] at hread
    obtain ⟨rfl, rfl⟩ := hread
    refine ⟨rfl, .comparison (by decide) ⟨nofun, fun _ => ?_, nofun⟩⟩
    cases rest with
    | nil => exact stops_nil
    | cons d rest =>
      have hd : d ≠ '=' := fun h => hequal rest (by rw [h])
      simpa using hd
  | case8 s h₁ h₂ h₃ h₄ h₅ h₆ h₇ hword rest hblank =>
    rw [comparison?.eq_8 s h₁ h₂ h₃ h₄ h₅ h₆ h₇, if_pos hword, if_pos hblank, Option.some.injEq,
      Prod.mk.injEq] at hread
    obtain ⟨rfl, rfl⟩ := hread
    refine ⟨?_, .comparison (by decide) ⟨nofun, nofun, fun _ => ?_⟩⟩
    · obtain ⟨t, ht⟩ := List.isPrefixOf_iff_prefix.mp hword
      rw [← ht, List.drop_left]
    · obtain ⟨c, hc, hblank⟩ := (Option.any_eq_true _ _).mp hblank
      obtain ⟨t, ht⟩ := List.head?_eq_some_iff.mp hc
      exact ⟨c, t, ht, hblank⟩
  | case9 s h₁ h₂ h₃ h₄ h₅ h₆ h₇ hword rest hblank =>
    rw [comparison?.eq_8 s h₁ h₂ h₃ h₄ h₅ h₆ h₇, if_pos hword, if_neg hblank] at hread
    cases hread
  | case10 s h₁ h₂ h₃ h₄ h₅ h₆ h₇ hword =>
    rw [comparison?.eq_8 s h₁ h₂ h₃ h₄ h₅ h₆ h₇, if_neg hword] at hread
    cases hread

theorem comparison?_eq_none {c : Char} {rest : List Char}
    (hc : c ≠ '=' ∧ c ≠ '!' ∧ c ≠ '<' ∧ c ≠ '>')
    (hword : ∀ after, c :: rest = containsWord ++ after → Stops isBlank after) :
    comparison? (c :: rest) = none := by
  obtain ⟨hequal, hbang, hless, hgreater⟩ := hc
  have hne {d : Char} {t : List Char} (hd : c ≠ d) : c :: rest = d :: t → False :=
    fun h => hd (List.cons.inj h).1
  rw [comparison?.eq_8 _ (fun _ => hne hequal) (fun _ => hne hbang) (fun _ => hne hless)
    (fun _ => hne hless) (fun _ => hne hless) (fun _ => hne hgreater) (fun _ => hne hgreater)]
  split
  · next hprefix =>
    obtain ⟨t, ht⟩ := List.isPrefixOf_iff_prefix.mp hprefix
    have hstops := hword t ht.symm
    rw [← ht, List.drop_left]
    refine if_neg ?_
    rw [Option.any_eq_true]
    rintro ⟨d, hd, hblank⟩
    exact absurd (hstops d hd) (by rw [hblank]; decide)
  · rfl

theorem comparison?_operator (hchars : chars ∈ operators) (hends : OperatorEnds chars after) :
    comparison? (chars ++ after) = some (chars, after) := by
  simp only [operators, List.mem_cons, List.not_mem_nil, or_false] at hchars
  rcases hchars with rfl | rfl | rfl | rfl | rfl | rfl | rfl | rfl
  · rfl
  · rfl
  · rfl
  · rfl
  · have hless := hends.less rfl
    refine comparison?.eq_5 after ?_ ?_
    · rintro rest rfl
      simp at hless
    · rintro rest rfl
      simp at hless
  · rfl
  · have hgreater := hends.greater rfl
    refine comparison?.eq_7 after ?_
    rintro rest rfl
    simp at hgreater
  · obtain ⟨c, rest, rfl, hblank⟩ := hends.word rfl
    simp [comparison?, containsWord, hblank]

theorem quoted?_eq_some (hread : quoted? s = some (chars, after)) :
    s = chars ++ after ∧ Starts ⟨.string, chars⟩ after := by
  fun_cases quoted? s with
  | case1 => cases hread
  | case2 q rest hquote close tail hrest =>
    rw [quoted?, if_pos hquote, hrest, Option.some.injEq, Prod.mk.injEq] at hread
    obtain ⟨rfl, rfl⟩ := hread
    obtain ⟨content, others, rfl, hcontent, hstops, htake, hdrop⟩ := exists_run (· != q) rest
    rw [hdrop] at hrest
    subst hrest
    have hclose : close = q := by simpa using hstops
    subst hclose
    rw [htake]
    refine ⟨by simp, .string _ (by simpa using hquote) fun hmem => ?_⟩
    simpa using hcontent _ hmem
  | case3 q rest hquote hrest =>
    rw [quoted?, if_pos hquote, hrest] at hread
    cases hread
  | case4 q rest hquote =>
    rw [quoted?, if_neg hquote] at hread
    cases hread

theorem quoted?_string {q : Char} {content : List Char} (hquote : q = '\'' ∨ q = '"')
    (hcontent : q ∉ content) (after : List Char) :
    quoted? (q :: content ++ q :: after) = some (q :: content ++ [q], after) := by
  have hrun : ∀ c ∈ content, (c != q) = true := fun c hc => by
    rw [bne_iff_ne]
    rintro rfl
    exact hcontent hc
  have hstops : Stops (· != q) (q :: after) := by simp
  rw [List.cons_append, quoted?, if_pos (by simpa using hquote), dropWhile_run hrun hstops,
    takeWhile_run hrun hstops]

theorem quoted?_eq_none {c : Char} {rest : List Char} (hc : c ≠ '\'' ∧ c ≠ '"') :
    quoted? (c :: rest) = none := by
  rw [quoted?, if_neg (by simpa using hc)]

/-- Digits, with or without a part behind a point. -/
theorem unsigned?_eq_some (hread : unsigned? s = some (chars, after)) :
    s = chars ++ after ∧ ∀ sign, sign = [] ∨ sign = ['-'] → Starts ⟨.number, sign ++ chars⟩ after := by
  obtain ⟨digits, rest, rfl, hdigits, hstops, htake, hdrop⟩ := exists_run isDecimal s
  unfold unsigned? at hread
  rw [htake, hdrop] at hread
  dsimp only at hread
  split at hread
  · cases hread
  · next hne =>
    have hne : digits ≠ [] := fun h => hne (by rw [h]; rfl)
    split at hread
    · next tail =>
      obtain ⟨part, others, rfl, hpart, hends, htake, hdrop⟩ := exists_run isDecimal tail
      rw [htake, hdrop] at hread
      split at hread
      · next hempty =>
        rw [List.isEmpty_iff] at hempty
        subst hempty
        cases hread
        refine ⟨rfl, fun sign hsign => .whole hsign hne hdigits hstops ?_⟩
        rintro rest h
        obtain ⟨-, rfl⟩ := List.cons.inj h
        exact hends
      · next hnonempty =>
        have hnonempty : part ≠ [] := fun h => hnonempty (by rw [h]; rfl)
        cases hread
        refine ⟨by simp, fun sign hsign => ?_⟩
        rw [← List.append_assoc]
        exact .decimal hsign hne hdigits hnonempty hpart hends
    · next rest hpoint =>
      cases hread
      exact ⟨rfl, fun sign hsign => .whole hsign hne hdigits hstops fun tail h => absurd h (hpoint tail)⟩

theorem number?_eq_some (hread : number? s = some (chars, after)) :
    s = chars ++ after ∧ Starts ⟨.number, chars⟩ after := by
  fun_cases number? s with
  | case1 rest =>
    rw [number?, Option.map_eq_some_iff] at hread
    obtain ⟨⟨digits, tail⟩, hdigits, heq⟩ := hread
    cases heq
    obtain ⟨rfl, hstarts⟩ := unsigned?_eq_some hdigits
    exact ⟨rfl, hstarts ['-'] (.inr rfl)⟩
  | case2 s hsign =>
    rw [number?.eq_2 s hsign] at hread
    obtain ⟨hs, hstarts⟩ := unsigned?_eq_some hread
    exact ⟨hs, hstarts [] (.inl rfl)⟩

theorem unsigned?_whole {digits : List Char} (hne : digits ≠ [])
    (hdigits : ∀ c ∈ digits, isDecimal c = true) (hends : Stops isDecimal after)
    (hpoint : ∀ rest, after = '.' :: rest → Stops isDecimal rest) :
    unsigned? (digits ++ after) = some (digits, after) := by
  unfold unsigned?
  rw [takeWhile_run hdigits hends, dropWhile_run hdigits hends]
  dsimp only
  rw [if_neg (by simpa using hne)]
  split
  · next rest =>
    rw [show rest.takeWhile isDecimal = [] from takeWhile_of_stops (hpoint rest rfl)]
    rfl
  · rfl

theorem unsigned?_decimal {digits part : List Char} (hne : digits ≠ [])
    (hdigits : ∀ c ∈ digits, isDecimal c = true) (hpart : part ≠ [])
    (hparts : ∀ c ∈ part, isDecimal c = true) (hends : Stops isDecimal after) :
    unsigned? (digits ++ '.' :: (part ++ after)) = some (digits ++ '.' :: part, after) := by
  have hstops : Stops isDecimal ('.' :: (part ++ after)) := stops_cons.mpr (by decide)
  unfold unsigned?
  simp only [takeWhile_run hdigits hstops, dropWhile_run hdigits hstops]
  rw [if_neg (by simpa using hne), takeWhile_run hparts hends, dropWhile_run hparts hends,
    if_neg (by simpa using hpart)]

/-- A sign in front of digits is taken with them. -/
theorem number?_sign {sign digits : List Char} (hsign : sign = [] ∨ sign = ['-'])
    (hfront : Stops (· == '-') s) (hread : unsigned? s = some (digits, after)) :
    number? (sign ++ s) = some (sign ++ digits, after) := by
  rcases hsign with rfl | rfl
  · rw [List.nil_append, number?.eq_2 s, hread]
    · rfl
    · rintro rest rfl
      simp at hfront
  · rw [List.cons_append, List.nil_append, number?, hread]
    rfl

theorem unsigned?_eq_none_iff : unsigned? s = none ↔ Stops isDecimal s := by
  obtain ⟨digits, rest, rfl, hdigits, hstops, htake, -⟩ := exists_run isDecimal s
  constructor
  · intro hnone
    unfold unsigned? at hnone
    rw [htake] at hnone
    dsimp only at hnone
    split at hnone
    · next hempty =>
      rw [List.isEmpty_iff.mp hempty]
      exact hstops
    · split at hnone
      · split at hnone <;> cases hnone
      · cases hnone
  · intro hs
    rw [unsigned?, show (digits ++ rest).takeWhile isDecimal = [] from
      takeWhile_of_stops hs]
    rfl

theorem number?_eq_none {c : Char} {rest : List Char} (hc : isDecimal c = false)
    (hdash : c = '-' → Stops isDecimal rest) : number? (c :: rest) = none := by
  by_cases h : c = '-'
  · subst h
    rw [number?, unsigned?_eq_none_iff.mpr (hdash rfl)]
    rfl
  · rw [number?.eq_2 _ fun _ heq => h (List.cons.inj heq).1, unsigned?_eq_none_iff.mpr (stops_cons.mpr hc)]

theorem identifier?_eq_some (hread : identifier? s = some (chars, after)) :
    s = chars ++ after ∧
      ((chars = containsWord → Stops isBlank after) → Starts ⟨.identifier, chars⟩ after) := by
  cases s with
  | nil => cases hread
  | cons c rest =>
    rw [identifier?] at hread
    split at hread
    · next hstart =>
      obtain ⟨name, others, rfl, hname, hstops, htake, hdrop⟩ := exists_run isNameChar rest
      rw [htake, hdrop] at hread
      dsimp only at hread
      split at hread
      · next tail =>
        cases hread
        exact ⟨by simp, fun _ => .asked _ hstart hname⟩
      · next hasked =>
        cases hread
        refine ⟨rfl, fun hword => .identifier hstart hname ?_ hword⟩
        cases after with
        | nil => exact stops_nil
        | cons d after =>
          have hd : d ≠ '?' := fun h => hasked after (by rw [h])
          simpa [hd] using hstops
    · cases hread

theorem identifier?_name {c : Char} {name : List Char} (hstart : isIdentifierStart c = true)
    (hname : ∀ d ∈ name, isNameChar d = true)
    (hends : Stops (fun d => isNameChar d || d == '?') after) :
    identifier? (c :: name ++ after) = some (c :: name, after) := by
  have hstops : Stops isNameChar after := hends.of_imp fun d hd => by simp [hd]
  rw [List.cons_append, identifier?, if_pos hstart, takeWhile_run hname hstops,
    dropWhile_run hname hstops]
  dsimp only
  split
  · next tail => simp at hends
  · rfl

theorem identifier?_asked {c : Char} {name : List Char} (after : List Char)
    (hstart : isIdentifierStart c = true) (hname : ∀ d ∈ name, isNameChar d = true) :
    identifier? (c :: name ++ '?' :: after) = some (c :: name ++ ['?'], after) := by
  have hstops : Stops isNameChar ('?' :: after) := stops_cons.mpr (by decide)
  rw [List.cons_append, identifier?, if_pos hstart, takeWhile_run hname hstops,
    dropWhile_run hname hstops]
  rfl

/-! ## Reading one lexeme -/

theorem single?_eq_some {l : Lexeme} (hread : single? s = some (l, after)) :
    ∃ c, s = c :: after ∧ Kind.ofChar? c = some l.kind ∧ l.chars = [c] := by
  cases s with
  | nil => cases hread
  | cons c rest =>
    rw [single?, Option.map_eq_some_iff] at hread
    obtain ⟨kind, hkind, heq⟩ := hread
    cases heq
    exact ⟨c, rfl, hkind, rfl⟩

theorem ofRead_eq_some {kind : Kind} {read : Option (List Char × List Char)} {l : Lexeme}
    (hread : ofRead kind read = some (l, after)) :
    ∃ chars, read = some (chars, after) ∧ l = ⟨kind, chars⟩ := by
  rw [ofRead, Option.map_eq_some_iff] at hread
  obtain ⟨⟨chars, rest⟩, hread, heq⟩ := hread
  cases heq
  exact ⟨chars, hread, rfl⟩

theorem ofRead_eq_none {kind : Kind} {read : Option (List Char × List Char)} :
    ofRead kind read = none ↔ read = none := Option.map_eq_none_iff

theorem next_eq (s : List Char) :
    next s = (ofRead .comparison (comparison? s)).or ((ofRead .string (quoted? s)).or
      ((ofRead .number (number? s)).or ((ofRead .identifier (identifier? s)).or
        ((ofRead .dotdot (dotdot? s)).or (single? s))))) := by
  simp only [next, Option.orElse_eq_orElse, Option.orElse_eq_or]

theorem starts_of_next {l : Lexeme} (hnext : next s = some (l, after)) :
    s = l.chars ++ after ∧ Starts l after := by
  rw [next_eq] at hnext
  rcases Option.or_eq_some_iff.mp hnext with hread | ⟨hcomparison, hnext⟩
  · obtain ⟨chars, hchars, rfl⟩ := ofRead_eq_some hread
    exact comparison?_eq_some hchars
  rcases Option.or_eq_some_iff.mp hnext with hread | ⟨-, hnext⟩
  · obtain ⟨chars, hchars, rfl⟩ := ofRead_eq_some hread
    exact quoted?_eq_some hchars
  rcases Option.or_eq_some_iff.mp hnext with hread | ⟨hnumber, hnext⟩
  · obtain ⟨chars, hchars, rfl⟩ := ofRead_eq_some hread
    exact number?_eq_some hchars
  rcases Option.or_eq_some_iff.mp hnext with hread | ⟨-, hnext⟩
  · obtain ⟨chars, hchars, rfl⟩ := ofRead_eq_some hread
    obtain ⟨rfl, hstarts⟩ := identifier?_eq_some hchars
    refine ⟨rfl, hstarts fun hword c hc => ?_⟩
    -- the word in front of a blank would have been an operator
    obtain ⟨rest, rfl⟩ := List.head?_eq_some_iff.mp hc
    by_contra hblank
    have hends : OperatorEnds containsWord (c :: rest) :=
      ⟨fun h => absurd h (by decide), fun h => absurd h (by decide),
        fun _ => ⟨c, rest, rfl, by simpa using hblank⟩⟩
    rw [ofRead_eq_none, hword, comparison?_operator (by decide) hends] at hcomparison
    cases hcomparison
  rcases Option.or_eq_some_iff.mp hnext with hread | ⟨hdotdot, hnext⟩
  · obtain ⟨chars, hchars, rfl⟩ := ofRead_eq_some hread
    unfold dotdot? at hchars
    split at hchars
    · cases hchars
      exact ⟨rfl, .dotdot _⟩
    · cases hchars
  · obtain ⟨kind, chars⟩ := l
    obtain ⟨c, rfl, hkind, hchars⟩ := single?_eq_some hnext
    cases hchars
    refine ⟨rfl, .single hkind ?_ ?_⟩
    · rintro rfl d hd
      obtain ⟨rest, rfl⟩ := List.head?_eq_some_iff.mp hd
      rw [beq_eq_false_iff_ne]
      rintro rfl
      cases hdotdot
    · rintro rfl
      rw [ofRead_eq_none, number?, Option.map_eq_none_iff] at hnumber
      exact unsigned?_eq_none_iff.mp hnumber

/-- A name that is not the word for membership in front of a blank is no operator. -/
theorem stops_of_name_eq {name rest : List Char} (hname : ∀ d ∈ name, isNameChar d = true)
    (hends : Stops isNameChar rest) (hword : name = containsWord → Stops isBlank rest)
    (after : List Char) (heq : name ++ rest = containsWord ++ after) : Stops isBlank after := by
  obtain ⟨more, others, rfl, hmore, hstops, -⟩ := exists_run isNameChar after
  have hcontains : ∀ d ∈ containsWord, isNameChar d = true := by decide
  have hlonger : ∀ d ∈ containsWord ++ more, isNameChar d = true :=
    List.forall_mem_append.mpr ⟨hcontains, hmore⟩
  have hwhole := congrArg (List.takeWhile isNameChar) heq
  rw [← List.append_assoc, takeWhile_run hname hends, takeWhile_run hlonger hstops] at hwhole
  subst hwhole
  rw [List.append_assoc, List.append_cancel_left_eq, List.append_cancel_left_eq] at heq
  subst heq
  cases more with
  | nil => exact hword (List.append_nil _)
  | cons d more => exact stops_cons.mpr (isBlank_of_isNameChar (hmore d List.mem_cons_self))

theorem comparison?_quote {q : Char} (hquote : q = '\'' ∨ q = '"') (rest : List Char) :
    comparison? (q :: rest) = none := by
  rcases hquote with rfl | rfl <;> rfl

/-- What starts with a sign or a digit is no operator and no quoted text. -/
theorem comparison?_digit {c : Char} (hc : c = '-' ∨ isDecimal c = true) (rest : List Char) :
    comparison? (c :: rest) = none ∧ quoted? (c :: rest) = none := by
  have hne (d : Char) (hd : d ≠ '-' ∧ isDecimal d = false) : c ≠ d := by
    rintro rfl
    simp [hd] at hc
  refine ⟨comparison?_eq_none ⟨hne _ ?_, hne _ ?_, hne _ ?_, hne _ ?_⟩ fun after h => ?_,
    quoted?_eq_none ⟨hne _ ?_, hne _ ?_⟩⟩
  case refine_5 => exact absurd (List.cons.inj h).1 (hne 'c' (by decide))
  all_goals decide

/-- What starts as an identifier is nothing that is tried before it. -/
theorem tried_before_identifier {c : Char} (rest : List Char) (hstart : isIdentifierStart c = true)
    (hword : ∀ after, c :: rest = containsWord ++ after → Stops isBlank after) :
    comparison? (c :: rest) = none ∧ quoted? (c :: rest) = none ∧ number? (c :: rest) = none := by
  have hne (d : Char) (hd : isIdentifierStart d = false) : c ≠ d := by
    rintro rfl
    rw [hd] at hstart
    cases hstart
  refine ⟨comparison?_eq_none ⟨hne _ ?_, hne _ ?_, hne _ ?_, hne _ ?_⟩ hword,
    quoted?_eq_none ⟨hne _ ?_, hne _ ?_⟩, number?_eq_none (isDecimal_of_isIdentifierStart hstart)
      fun h => absurd h (hne _ ?_)⟩
  all_goals decide

theorem number?_digits {sign digits rest chars : List Char} (hsign : sign = [] ∨ sign = ['-'])
    (hne : digits ≠ []) (hdigits : ∀ c ∈ digits, isDecimal c = true)
    (hread : unsigned? (digits ++ rest) = some (chars, after)) :
    next (sign ++ (digits ++ rest)) = some (⟨.number, sign ++ chars⟩, after) := by
  obtain ⟨d, digits, rfl⟩ := List.exists_cons_of_ne_nil hne
  have hd := hdigits d List.mem_cons_self
  have hfront : Stops (· == '-') (d :: digits ++ rest) := by
    rw [List.cons_append, stops_cons, beq_eq_false_iff_ne]
    rintro rfl
    exact absurd hd (by decide)
  have hbefore : ∃ c t, sign ++ (d :: digits ++ rest) = c :: t ∧ (c = '-' ∨ isDecimal c = true) := by
    rcases hsign with rfl | rfl
    · exact ⟨d, _, rfl, .inr hd⟩
    · exact ⟨'-', _, rfl, .inl rfl⟩
  obtain ⟨c, t, hs, hc⟩ := hbefore
  obtain ⟨hcomparison, hquoted⟩ := comparison?_digit hc t
  rw [next_eq, number?_sign hsign hfront hread, hs, hcomparison, hquoted]
  rfl

/-- What an identifier is read as, when neither a lexeme of an earlier kind is read nor the word for
membership. -/
theorem next_of_identifier? {c : Char} {name rest chars : List Char} (hstart : isIdentifierStart c = true)
    (hname : ∀ d ∈ name, isNameChar d = true) (hends : Stops isNameChar rest)
    (hword : c :: name = containsWord → Stops isBlank rest)
    (hread : identifier? (c :: name ++ rest) = some (chars, after)) :
    next (c :: name ++ rest) = some (⟨.identifier, chars⟩, after) := by
  have hnames : ∀ d ∈ c :: name, isNameChar d = true :=
    List.forall_mem_cons.mpr ⟨isNameChar_of_isIdentifierStart hstart, hname⟩
  obtain ⟨hcomparison, hquoted, hnumber⟩ := tried_before_identifier (name ++ rest) hstart
    (stops_of_name_eq hnames hends hword)
  rw [List.cons_append] at hread
  rw [next_eq, List.cons_append, hcomparison, hquoted, hnumber, hread]
  rfl

/-- A character that is a lexeme by itself is one, where no longer lexeme starts with it. -/
theorem next_of_ofChar? {c : Char} {kind : Kind} (hkind : Kind.ofChar? c = some kind)
    (hdot : c = '.' → Stops (· == '.') after) (hdash : c = '-' → Stops isDecimal after) :
    next (c :: after) = some (⟨kind, [c]⟩, after) := by
  -- only a point and a dash start longer lexemes
  unfold Kind.ofChar? at hkind
  split at hkind
  · cases hkind
    rfl
  · cases hkind
    have hnone : dotdot? ('.' :: after) = none := by
      unfold dotdot?
      split
      · next h =>
        cases h
        simp at hdot
      · rfl
    rw [next_eq, hnone]
    rfl
  case h_10 =>
    cases hkind
    rw [next_eq, number?_eq_none (by decide) fun _ => hdash rfl]
    rfl
  case h_11 => cases hkind
  all_goals
    cases hkind
    rfl

theorem next_of_starts {l : Lexeme} (hstarts : Starts l after) :
    next (l.chars ++ after) = some (l, after) := by
  -- the readers are tried one after another, and those in front of the right one read nothing
  cases hstarts with
  | comparison hchars hends =>
    rw [next_eq, comparison?_operator hchars hends]
    rfl
  | @string q content after hquote hcontent =>
    rw [List.append_assoc, List.singleton_append, next_eq, quoted?_string hquote hcontent,
      List.cons_append, comparison?_quote hquote]
    rfl
  | whole hsign hne hdigits hends hpoint =>
    rw [List.append_assoc]
    exact number?_digits hsign hne hdigits (unsigned?_whole hne hdigits hends hpoint)
  | @decimal sign digits part after hsign hne hdigits hpart hparts hends =>
    rw [List.append_assoc, List.append_assoc, List.cons_append, List.append_assoc]
    exact number?_digits hsign hne hdigits (unsigned?_decimal hne hdigits hpart hparts hends)
  | identifier hstart hname hends hword =>
    exact next_of_identifier? hstart hname (hends.of_imp fun d hd => by simp [hd]) hword
      (identifier?_name hstart hname hends)
  | asked after hstart hname =>
    rw [List.append_assoc, List.singleton_append]
    exact next_of_identifier? hstart hname (stops_cons.mpr (by decide))
      (fun _ => stops_cons.mpr (by decide)) (identifier?_asked after hstart hname)
  | dotdot after => rfl
  | single hkind hdot hdash => exact next_of_ofChar? hkind hdot hdash

/-- **The lexeme a text starts with.** It is found just where it stands in front of what follows. -/
theorem next_eq_some_iff {l : Lexeme} :
    next s = some (l, after) ↔ s = l.chars ++ after ∧ Starts l after :=
  ⟨starts_of_next, fun ⟨hs, hstarts⟩ => hs ▸ next_of_starts hstarts⟩

end Stencil.Lexeme
