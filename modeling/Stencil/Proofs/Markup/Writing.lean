import Stencil.Proofs.Markup.Coverage
import Stencil.Proofs.Markup.Layout

/-!
# Writing lexemes down

A list of lexemes, each with a blank in front of it or not, is written down (`write`) and found again
(`spelled_write`), if each of them is told apart from the next one: by a blank, or by kinds that do not
run together (`Meets`). Inside an expression the kinds always tell (`Forms.isChain_meets`).
-/

namespace Stencil

open Text

namespace Lexeme

variable {s : List Char} {x y : Lexeme} {ls : List Spaced}

/-! ## Plain lexemes -/

/-- The lexemes that plain texts are made of: no numbers with a point, no names with hyphens or question
marks, strings in single quotes only. -/
inductive Plain : Lexeme → Prop where
  | word {c : Char} {name : List Char} (hstart : isIdentifierStart c = true)
    (hname : ∀ d ∈ name, isWordChar d = true) (hword : c :: name ≠ containsWord) :
    Plain ⟨.identifier, c :: name⟩
  | whole {sign digits : List Char} (hsign : sign = [] ∨ sign = ['-']) (hne : digits ≠ [])
    (hdigits : ∀ c ∈ digits, isDecimal c = true) : Plain ⟨.number, sign ++ digits⟩
  | string {content : List Char} (hcontent : '\'' ∉ content) :
    Plain ⟨.string, '\'' :: content ++ ['\'']⟩
  | operator {chars : List Char} (hchars : chars ∈ operators) : Plain ⟨.comparison, chars⟩
  | dots : Plain dots
  | single {c : Char} {kind : Kind} (hkind : Kind.ofChar? c = some kind) (hdash : c ≠ '-') :
    Plain ⟨kind, [c]⟩

theorem Plain.matches (hx : Plain x) : x.kind.Matches x.chars := by
  cases hx with
  | word hstart hname => exact .identifier hstart fun d hd => by simp [isNameChar, hname d hd]
  | whole hsign hne hdigits => exact .whole hsign hne hdigits
  | string hcontent => exact .string (.inl rfl) hcontent
  | operator hchars => exact .comparison hchars
  | dots => exact .dotdot
  | single hkind => exact .single hkind

theorem Plain.ne_containsWord (hx : Plain x) (hkind : x.kind = .identifier) : x.chars ≠ containsWord := by
  cases hx with
  | word _ _ hword => exact hword
  | single hchar => exact absurd hkind (Kind.ne_of_ofChar? hchar (by decide))
  | _ => cases hkind

/-- Behind a blank every plain lexeme has ended. -/
theorem Plain.starts_blank (hx : Plain x) (s : List Char) : Starts x (' ' :: s) :=
  hx.matches.starts_blank hx.ne_containsWord s

/-! ## Lexemes right behind others -/

/-- The kinds of lexemes that may stand right behind a name or a number, steps of a path apart. -/
def closingKinds : List Kind := [.dotdot, .closeSquare, .closeRound, .colon, .comma, .ending]

/-- Whether a lexeme may stand right behind another one, and not run together with it. -/
def Meets (x y : Lexeme) : Prop :=
  x.kind ∈ [.string, .dotdot, .openSquare, .closeSquare, .openRound, .closeRound] ∨
    x.kind = .dot ∧ y.kind = .identifier ∨
    x.kind = .identifier ∧ y.kind ∈ .dot :: .openSquare :: closingKinds ∨
    x.kind = .number ∧ y.kind ∈ closingKinds

/-- What follows starts with a plain lexeme, or is nothing. -/
inductive Begins : Lexeme → List Char → Prop where
  | ending : Begins ending []
  | plain {y : Lexeme} (hy : Plain y) (s : List Char) : Begins y (y.chars ++ s)

theorem Begins.stops {p : Char → Bool} (hbegins : Begins y s)
    (hp : ∀ c ∈ ['.', '[', ']', ')', ':', ','], p c = false)
    (hy : y.kind ∈ .dot :: .openSquare :: closingKinds) : Stops p s := by
  cases hbegins with
  | ending => exact stops_nil
  | plain hplain s =>
    cases hplain with
    | word | whole | string | operator => exact absurd hy (by dsimp only; decide)
    | dots => exact stops_cons.mpr (hp '.' (by decide))
    | @single c kind hkind =>
      have hmarks : ∀ m ∈ marks, m.2 ∈ .dot :: .openSquare :: closingKinds →
          m.1 ∈ ['.', '[', ']', ')', ':', ','] := by decide
      exact stops_cons.mpr (hp c (hmarks _ (Kind.mem_marks hkind) hy))

/-- Lexemes that may meet do not run together. -/
theorem Plain.starts_of_meets (hx : Plain x) (hbegins : Begins y s) (hmeets : Meets x y) : Starts x s := by
  cases hx with
  | word hstart hname hword =>
    have hy : y.kind ∈ .dot :: .openSquare :: closingKinds := by
      rcases hmeets with h | ⟨h, -⟩ | ⟨-, h⟩ | ⟨h, -⟩
      · exact absurd (show Kind.identifier ∈ _ from h) (by decide)
      · cases h
      · exact h
      · cases h
    exact .identifier hstart (fun d hd => by simp [isNameChar, hname d hd])
      (hbegins.stops (by decide) hy) fun h => absurd h hword
  | whole hsign hne hdigits =>
    have hy : y.kind ∈ closingKinds := by
      rcases hmeets with h | ⟨h, -⟩ | ⟨h, -⟩ | ⟨-, h⟩
      · exact absurd (show Kind.number ∈ _ from h) (by decide)
      · cases h
      · cases h
      · exact h
    refine .whole hsign hne hdigits (hbegins.stops (by decide)
      (List.mem_cons_of_mem _ (List.mem_cons_of_mem _ hy))) fun rest hs => ?_
    -- only the dots of a range start with a point
    cases hbegins with
    | ending => cases hs
    | plain hplain s =>
      cases hplain with
      | word | whole | string | operator => exact absurd hy (by dsimp only; decide)
      | dots =>
        obtain ⟨-, rfl⟩ := List.cons.inj hs
        exact stops_cons.mpr (by decide)
      | @single c kind hkind =>
        obtain ⟨rfl, -⟩ := List.cons.inj hs
        cases hkind
        exact absurd hy (by decide)
  | string hcontent => exact .string _ (.inl rfl) hcontent
  | operator hchars =>
    rcases hmeets with h | ⟨h, -⟩ | ⟨h, -⟩ | ⟨h, -⟩
    · exact absurd (show Kind.comparison ∈ _ from h) (by decide)
    all_goals cases h
  | dots => exact .dotdot _
  | @single c kind hkind hdash =>
    refine .single hkind ?_ fun h => absurd h hdash
    rintro rfl
    cases hkind
    rcases hmeets with h | ⟨-, h⟩ | ⟨h, -⟩ | ⟨h, -⟩
    · exact absurd h (by decide)
    · cases hbegins with
      | ending => cases h
      | plain hplain s =>
        cases hplain with
        | word hstart =>
          refine stops_cons.mpr (beq_eq_false_iff_ne.mpr ?_)
          rintro rfl
          exact absurd hstart (by decide)
        | whole | string | operator | dots => cases h
        | single hkind => exact absurd h (Kind.ne_of_ofChar? hkind (by decide))
    · cases h
    · cases h

/-! ## Lists of lexemes -/

/-- A lexeme with the blank in front of it. -/
def Spaced.chars (x : Spaced) : List Char := (if x.gap then [' '] else []) ++ x.lexeme.chars

/-- Lexemes as they are written, with single blanks. -/
def write (ls : List Spaced) : List Char := ls.flatMap Spaced.chars

@[simp] theorem write_nil : write [] = [] := rfl

@[simp] theorem write_cons (x : Spaced) (ls : List Spaced) : write (x :: ls) = x.chars ++ write ls := rfl

@[simp] theorem write_append (ls ms : List Spaced) : write (ls ++ ms) = write ls ++ write ms :=
  List.flatMap_append

/-- Whether a lexeme is told apart from the one in front of it. -/
def Fits (x y : Spaced) : Prop := y.gap = true ∨ Meets x.lexeme y.lexeme

/-- The ending of a markup that ends with no blank. -/
def Spaced.ending : Spaced := ⟨false, Lexeme.ending⟩

/-- What is written is made of the lexemes it was written for. -/
theorem spelled_write (hplain : ∀ x ∈ ls, Plain x.lexeme) (hchain : (ls ++ [Spaced.ending]).IsChain Fits) :
    Spelled (write ls) (ls ++ [.ending]) := by
  induction ls with
  | nil => exact .ending isGap_nil
  | cons x ls ih =>
    obtain ⟨hx, hplain⟩ := List.forall_mem_cons.mp hplain
    rw [List.cons_append] at hchain
    obtain ⟨hhead, hchain⟩ := List.isChain_cons.mp hchain
    have hstarts : Starts x.lexeme (write ls) := by
      cases ls with
      | nil =>
        rcases hhead .ending rfl with h | h
        · cases h
        · exact hx.starts_of_meets .ending h
      | cons y ls =>
        have hy : Plain y.lexeme := hplain y List.mem_cons_self
        rw [write_cons, Spaced.chars]
        cases hgap : y.gap with
        | true => exact hx.starts_blank _
        | false =>
          rcases hhead y rfl with h | h
          · rw [hgap] at h
            cases h
          · exact hx.starts_of_meets (.plain hy _) h
    have hspelled := ih hplain hchain
    obtain ⟨gap, l⟩ := x
    rw [write_cons, Spaced.chars, List.append_assoc]
    cases gap with
    | true => exact .lexeme (isGap_cons.mpr ⟨by decide, isGap_nil⟩) hstarts hspelled
    | false => exact .lexeme isGap_nil hstarts hspelled

/-- The first lexeme with a blank in front of it or not, and the others without. -/
def spread (gap : Bool) : List Lexeme → List Spaced
  | [] => []
  | l :: ls => ⟨gap, l⟩ :: ls.map (⟨false, ·⟩)

@[simp] theorem map_lexeme_spread (gap : Bool) (ls : List Lexeme) :
    (spread gap ls).map (·.lexeme) = ls := by
  cases ls with
  | nil => rfl
  | cons l ls => simp [spread, Function.comp_def]

theorem write_spread (gap : Bool) {ls : List Lexeme} (hne : ls ≠ []) :
    write (spread gap ls) = (if gap then [' '] else []) ++ spelling ls := by
  have hlater (ls : List Lexeme) : write (ls.map (⟨false, ·⟩)) = spelling ls := by
    induction ls with
    | nil => rfl
    | cons l ls ih => rw [List.map_cons, write_cons, ih]; rfl
  obtain ⟨l, ls, rfl⟩ := List.exists_cons_of_ne_nil hne
  rw [spread, write_cons, hlater, Spaced.chars, spelling_cons, List.append_assoc]

theorem isChain_spread {R : Spaced → Spaced → Prop} {gap : Bool} {ls : List Lexeme}
    (hchain : ls.IsChain Meets)
    (h : ∀ {x : Spaced} {y : Lexeme}, x.lexeme ∈ ls → y ∈ ls → Meets x.lexeme y → R x ⟨false, y⟩) :
    (spread gap ls).IsChain R := by
  induction ls generalizing gap with
  | nil => exact .nil
  | cons l ls ih =>
    cases ls with
    | nil => exact .singleton _
    | cons m ls =>
      obtain ⟨hmeets, hchain⟩ := List.isChain_cons_cons.mp hchain
      refine List.isChain_cons_cons.mpr ⟨h List.mem_cons_self (List.mem_cons_of_mem _ List.mem_cons_self)
        hmeets, ?_⟩
      exact @ih false hchain fun hx hy => h (List.mem_cons_of_mem _ hx) (List.mem_cons_of_mem _ hy)

end Lexeme

/-! ## Expressions -/

namespace Grammar

open Lexeme

theorem meets_of_closing {x y : Lexeme} (hx : x.kind ∈ endingKinds) (hy : y.kind ∈ closingKinds) :
    Meets x y := by
  simp only [endingKinds, List.mem_cons, List.not_mem_nil, or_false] at hx
  rcases hx with hx | hx | hx | hx | hx
  · exact .inl (by rw [hx]; decide)
  · exact .inr (.inr (.inr ⟨hx, hy⟩))
  · exact .inr (.inr (.inl ⟨hx, List.mem_cons_of_mem _ (List.mem_cons_of_mem _ hy)⟩))
  · exact .inl (by rw [hx]; decide)
  · exact .inl (by rw [hx]; decide)

/-- The lexemes of an expression are told apart without blanks. -/
theorem Forms.isChain_meets {phrase : Phrase} {ls : List Lexeme} (hforms : Forms phrase ls) :
    ls.IsChain Meets := by
  have hall : ∀ pair ∈ neighbours, pair.1 ∈ [.string, .dotdot, .openSquare, .closeSquare, .openRound, .closeRound] ∨
      pair.1 = .dot ∧ pair.2 = .identifier ∨
      pair.1 = .identifier ∧ pair.2 ∈ .dot :: .openSquare :: closingKinds ∨
      pair.1 = .number ∧ pair.2 ∈ closingKinds := by decide
  exact hforms.adjoin.imp fun x y hkinds => hall (x.kind, y.kind) hkinds

/-- An expression in front of further lexemes, for any relation that its neighbours are in. -/
theorem Forms.isChain_spread {R : Spaced → Spaced → Prop} {ls : List Lexeme} {gap : Bool} {y : Spaced}
    {rest : List Spaced} (hforms : Forms .expression ls) (hrest : (y :: rest).IsChain R)
    (hinside : ∀ {x : Spaced} {z : Lexeme}, x.lexeme.kind ∈ innerKinds → z.kind ∈ innerKinds →
      Meets x.lexeme z → R x ⟨false, z⟩)
    (hlast : ∀ x, x.lexeme.kind ∈ endingKinds → R x y) :
    (spread gap ls ++ y :: rest).IsChain R := by
  refine List.isChain_append.mpr ⟨Lexeme.isChain_spread hforms.isChain_meets fun hx hz =>
    hinside (hforms.kinds _ hx) (hforms.kinds _ hz), hrest, ?_⟩
  rintro x hx _ ⟨⟩
  refine hlast x (hforms.getLast x.lexeme ?_).1
  have := congrArg List.getLast? (map_lexeme_spread gap ls)
  rw [List.getLast?_map, hx] at this
  exact this.symm

end Grammar

end Stencil
