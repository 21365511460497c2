import Mathlib.Data.List.ProdSigma
import Stencil.Proofs.Markup.Expressions
import Stencil.Proofs.Markup.Fragments

/-!
# Expressions as fragments

An expression of the strict grammar that is written without blanks between its lexemes is an operand
of the tolerant one (`operand_of_forms`), and a markup is made of such texts, blanks, and the lexemes
between expressions (`Spelled.split`). Inside an expression only some kinds of lexemes stand next to each other
(`Forms.adjoin`).
-/

namespace Stencil

open Text Fragment

/-! ## Characters of lexemes -/

namespace Lexeme

variable {l : Lexeme} {s after : List Char}

/-- The kinds of lexemes that expressions are made of. -/
def innerKinds : List Kind :=
  [.string, .number, .identifier, .dotdot, .dot, .openSquare, .closeSquare, .openRound, .closeRound]

/-- The characters of a lexeme of an expression stand for themselves, if it is no string. -/
theorem Starts.solid (hstarts : Starts l after) (hkind : l.kind ∈ innerKinds) (hstring : l.kind ≠ .string) :
    ∀ c ∈ l.chars, isSolid c = true := by
  have hsign {sign : List Char} (h : sign = [] ∨ sign = ['-']) : ∀ c ∈ sign, isSolid c = true := by
    rcases h with rfl | rfl <;> decide
  have hdigits {digits : List Char} (h : ∀ c ∈ digits, isDecimal c = true) :
      ∀ c ∈ digits, isSolid c = true := fun c hc => isSolid_of_isDecimal (h c hc)
  have hname {c : Char} {name : List Char} (hstart : isIdentifierStart c = true)
      (h : ∀ d ∈ name, isNameChar d = true) : ∀ d ∈ c :: name, isSolid d = true :=
    List.forall_mem_cons.mpr ⟨isSolid_of_isNameChar (isNameChar_of_isIdentifierStart hstart),
      fun d hd => isSolid_of_isNameChar (h d hd)⟩
  cases hstarts with
  | comparison => exact absurd hkind (show Kind.comparison ∉ innerKinds by decide)
  | string => exact absurd rfl hstring
  | whole hs hne hd _ _ => exact List.forall_mem_append.mpr ⟨hsign hs, hdigits hd⟩
  | decimal hs hne hd hpart hp _ =>
    refine List.forall_mem_append.mpr ⟨List.forall_mem_append.mpr ⟨hsign hs, hdigits hd⟩, ?_⟩
    exact List.forall_mem_cons.mpr ⟨by decide, hdigits hp⟩
  | identifier hstart hn _ _ => exact hname hstart hn
  | asked after hstart hn => exact List.forall_mem_append.mpr ⟨hname hstart hn, by decide⟩
  | dotdot => decide
  | single hchar =>
    have hmarks : ∀ m ∈ marks, m.2 ∈ innerKinds → ∀ c ∈ [m.1], isSolid c = true := by decide
    exact hmarks _ (Kind.mem_marks hchar) hkind

theorem Starts.isString (hstarts : Starts l after) (hkind : l.kind = .string) : IsString l.chars := by
  cases hstarts with
  | string after hquote hcontent => exact ⟨_, _, isQuote_iff.mpr hquote, hcontent, rfl⟩
  | single hchar => exact absurd hkind (Kind.ne_of_ofChar? hchar (by decide))
  | _ => cases hkind

theorem Starts.forall_isNameChar (hstarts : Starts l after) (hkind : l.kind = .identifier)
    (hasked : '?' ∉ l.chars) : ∀ c ∈ l.chars, isNameChar c = true := by
  cases hstarts with
  | identifier hstart hname _ _ =>
    exact List.forall_mem_cons.mpr ⟨isNameChar_of_isIdentifierStart hstart, hname⟩
  | asked => exact absurd (List.mem_append_right _ List.mem_cons_self) hasked
  | single hchar => exact absurd hkind (Kind.ne_of_ofChar? hchar (by decide))
  | _ => cases hkind

theorem Starts.stops_isNameChar (hstarts : Starts l after) (hkind : l.kind = .identifier)
    (hasked : '?' ∉ l.chars) : Stops isNameChar after := by
  cases hstarts with
  | identifier _ _ hends _ => exact hends.of_imp fun c hc => by simp [hc]
  | asked => exact absurd (List.mem_append_right _ List.mem_cons_self) hasked
  | single hchar => exact absurd hkind (Kind.ne_of_ofChar? hchar (by decide))
  | _ => cases hkind

/-- A lexeme of an expression is made of quoted strings and of characters that stand for themselves. -/
theorem Starts.pieces (hstarts : Starts l after) (hkind : l.kind ∈ innerKinds) :
    Pieces isSolid l.chars := by
  by_cases hstring : l.kind = .string
  · obtain ⟨q, content, hq, hcontent, hchars⟩ := hstarts.isString hstring
    rw [hchars]
    exact .string hq hcontent
  · exact .of_forall (hstarts.solid hkind hstring)

end Lexeme

/-! ## Lexemes of an expression -/

namespace Grammar

open Lexeme

theorem Forms.kinds {phrase : Phrase} {ls : List Lexeme} (hforms : Forms phrase ls) :
    ∀ l ∈ ls, l.kind ∈ innerKinds := by
  induction hforms with
  | literal hkind =>
    refine List.forall_mem_singleton.mpr ?_
    rcases hkind with h | h <;> rw [h] <;> decide
  | named hkind _ ih => exact List.forall_mem_cons.mpr ⟨by rw [hkind]; decide, ih⟩
  | bracketed _ _ ihinner ihsteps | index _ _ ihinner ihsteps =>
    exact List.forall_mem_append.mpr ⟨List.forall_mem_cons.mpr ⟨by decide, ihinner⟩,
      List.forall_mem_cons.mpr ⟨by decide, ihsteps⟩⟩
  | range _ _ ihfirst ihlast =>
    refine List.forall_mem_append.mpr ⟨List.forall_mem_append.mpr
      ⟨List.forall_mem_cons.mpr ⟨by decide, ihfirst⟩, List.forall_mem_cons.mpr ⟨by decide, ihlast⟩⟩, ?_⟩
    exact List.forall_mem_singleton.mpr (by decide)
  | done => exact fun _ hl => nomatch hl
  | name hkind _ ih =>
    exact List.forall_mem_cons.mpr ⟨by decide, List.forall_mem_cons.mpr ⟨by rw [hkind]; decide, ih⟩⟩

/-- A word in front of which an expression is complete. -/
def NewWord (x y : Lexeme) : Prop := x.kind ∈ endingKinds ∧ y.kind = .identifier

instance (x y : Lexeme) : Decidable (NewWord x y) := inferInstanceAs (Decidable (_ ∧ _))

/-- The kinds of lexemes that stand next to each other in an expression: what opens something in front of what
starts an expression, what ends one in front of what closes or joins it, and what steps of a path are made of. -/
def neighbours : List (Kind × Kind) :=
  List.product [.openSquare, .openRound, .dotdot] startingKinds ++
    endingKinds.product [.closeSquare, .closeRound, .dotdot] ++
      List.product [.identifier, .closeSquare] [.openSquare, .dot] ++ [(.dot, .identifier)]

theorem mem_neighbours {k m : Kind} : (k, m) ∈ neighbours ↔
    k ∈ [.openSquare, .openRound, .dotdot] ∧ m ∈ startingKinds ∨
      k ∈ endingKinds ∧ m ∈ [.closeSquare, .closeRound, .dotdot] ∨
        k ∈ [.identifier, .closeSquare] ∧ m ∈ [.openSquare, .dot] ∨ k = .dot ∧ m = .identifier := by
  simp only [neighbours, List.mem_append, List.pair_mem_product, List.mem_singleton, Prod.mk.injEq, or_assoc]

/-- The lexemes have kinds that stand next to each other in an expression. -/
def Adjoin (x y : Lexeme) : Prop := (x.kind, y.kind) ∈ neighbours

/-- **Where lexemes of an expression meet, their kinds are neighbours.** Induction on the phrase. -/
theorem Forms.adjoin {phrase : Phrase} {ls : List Lexeme} (hforms : Forms phrase ls) :
    ls.IsChain Adjoin := by
  have hopen {l : Lexeme} {inner : List Lexeme} (hl : l.kind ∈ [.openSquare, .openRound, .dotdot])
      (hinner : Forms .expression inner) (hchain : inner.IsChain Adjoin) :
      (l :: inner).IsChain Adjoin := by
    obtain ⟨i, more, rfl, hi⟩ := hinner.head
    exact List.isChain_cons_cons.mpr ⟨mem_neighbours.mpr (.inl ⟨hl, hi⟩), hchain⟩
  have hsteps {l : Lexeme} {steps : List Lexeme} (hl : l.kind ∈ [.identifier, .closeSquare])
      (hsteps : Forms .steps steps) (hchain : steps.IsChain Adjoin) : (l :: steps).IsChain Adjoin := by
    refine List.isChain_cons.mpr ⟨fun y hy => mem_neighbours.mpr (.inr (.inr (.inl ⟨hl, ?_⟩))), hchain⟩
    cases hsteps with
    | done => cases hy
    | index | name =>
      cases hy
      decide
  have hclose {o l : Lexeme} {inner back : List Lexeme} (hl : l.kind ∈ [.closeSquare, .closeRound, .dotdot])
      (hinner : Forms .expression inner) (hfront : (o :: inner).IsChain Adjoin)
      (hback : (l :: back).IsChain Adjoin) : (o :: inner ++ l :: back).IsChain Adjoin := by
    refine List.isChain_append.mpr ⟨hfront, hback, ?_⟩
    rintro x hx _ ⟨⟩
    obtain ⟨i, more, rfl, -⟩ := hinner.head
    rw [List.getLast?_cons_cons] at hx
    exact mem_neighbours.mpr (.inr (.inl ⟨(hinner.getLast x hx).1, hl⟩))
  induction hforms with
  | literal => exact .singleton _
  | named hkind hlater ih => exact hsteps (by rw [hkind]; decide) hlater ih
  | bracketed hinner hlater ihinner ihlater | index hinner hlater ihinner ihlater =>
    exact hclose (by decide) hinner (hopen (by decide) hinner ihinner) (hsteps (by decide) hlater ihlater)
  | range hfirst hlast ihfirst ihlast =>
    rw [List.append_assoc]
    exact hclose (by decide) hfirst (hopen (by decide) hfirst ihfirst)
      (hclose (by decide) hlast (hopen (by decide) hlast ihlast) (.singleton _))
  | done => exact .nil
  | name hkind hlater ih =>
    refine List.isChain_cons_cons.mpr ⟨?_, hsteps (by rw [hkind]; decide) hlater ih⟩
    exact mem_neighbours.mpr (.inr (.inr (.inr ⟨rfl, hkind⟩)))

/-- Inside an expression no word stands behind something complete. -/
theorem Forms.isChain {phrase : Phrase} {ls : List Lexeme} (hforms : Forms phrase ls) :
    ls.IsChain fun x y => ¬ NewWord x y := by
  have hall : ∀ pair ∈ neighbours, ¬ (pair.1 ∈ endingKinds ∧ pair.2 = .identifier) := by decide
  exact hforms.adjoin.imp fun x y hkinds => hall (x.kind, y.kind) hkinds

theorem Forms.eq_singleton {l : Lexeme} {ls : List Lexeme} (hforms : Forms .expression (l :: ls))
    (hkind : l.kind = .string) : ls = [] := by
  cases hforms with
  | literal => rfl
  | named h _ => rw [hkind] at h; cases h
  | bracketed => cases hkind
  | range => cases hkind

theorem Proper.starts {l : Lexeme} {ls : List Lexeme} (hproper : Proper ls) (hl : l ∈ ls)
    (hkind : l.kind ∈ innerKinds) : ∃ after, Starts l after := by
  rcases hproper l hl with rfl | h
  · exact absurd hkind (by decide)
  · exact h

/-- An expression written without blanks is an operand. -/
theorem operand_of_forms {ls : List Lexeme} (hforms : Forms .expression ls) (hproper : Proper ls) :
    Operand (spelling ls) := by
  have hstarts {l : Lexeme} (hl : l ∈ ls) : ∃ after, Starts l after :=
    hproper.starts hl (hforms.kinds l hl)
  have hpieces (front : List Lexeme) (hfront : front ⊆ ls) : Pieces isSolid (spelling front) := by
    induction front with
    | nil => exact .nil
    | cons l front ih =>
      obtain ⟨hl, hfront⟩ := List.cons_subset.mp hfront
      obtain ⟨after, h⟩ := hstarts hl
      exact (h.pieces (hforms.kinds l hl)).append (ih hfront)
  have hall := hpieces ls (List.Subset.refl ls)
  obtain ⟨l, rest, rfl, -⟩ := hforms.head
  obtain ⟨after, h⟩ := hstarts List.mem_cons_self
  obtain ⟨c, chars, hchars, -⟩ := h.chars_eq
  refine ⟨hall, by rw [spelling_cons, hchars]; nofun, ?_⟩
  by_cases hkind : l.kind = .string
  · obtain rfl := hforms.eq_singleton hkind
    rw [spelling_cons, spelling_nil, List.append_nil]
    exact .inl (h.isString hkind)
  · have hc : c ∈ l.chars := by rw [hchars]; exact List.mem_cons_self
    have hsolid := h.solid (hforms.kinds _ List.mem_cons_self) hkind c hc
    rw [spelling_cons, hchars]
    exact .inr (stops_cons.mpr (isPlain_iff.mp (isPlain_of_isSolid hsolid)).2)

theorem Proper.isString {l : Lexeme} {ls : List Lexeme} (hproper : Proper ls) (hl : l ∈ ls)
    (hkind : l.kind = .string) : IsString l.chars := by
  obtain ⟨after, hstarts⟩ := hproper.starts hl (by rw [hkind]; decide)
  exact hstarts.isString hkind

end Grammar

/-! ## Texts and their lexemes -/

namespace Lexeme

variable {s : List Char} {front rest : List Spaced} {y : Spaced}

/-- No blanks stand between the lexemes. -/
def Tight (xs : List Spaced) : Prop := ∀ x ∈ xs.tail, x.gap = false

/-- The characters of lexemes without the blanks between them. -/
def tightSpelling (xs : List Spaced) : List Char := spelling (xs.map (·.lexeme))

/-- Lexemes without blanks between them are a piece of the text. -/
theorem Spelled.split (hspelled : Spelled s (front ++ rest)) (hne : front ≠ []) (htight : Tight front)
    (hending : ∀ x ∈ front, x.lexeme ≠ Lexeme.ending) :
    ∃ gap after, s = gap ++ (tightSpelling front ++ after) ∧ IsGap gap ∧
      (∀ x ∈ front.head?, x.gap = !gap.isEmpty) ∧ Spelled after rest := by
  induction front generalizing s with
  | nil => exact absurd rfl hne
  | cons x front ih =>
    obtain ⟨hx, hlater⟩ := List.forall_mem_cons.mp hending
    rw [List.cons_append] at hspelled
    generalize hls : x :: (front ++ rest) = ls at hspelled
    cases hspelled with
    | ending hgap => exact absurd (congrArg Spaced.lexeme (List.cons.inj hls).1) hx
    | @lexeme gap after l ls hgap hstarts hafter =>
      obtain ⟨rfl, rfl⟩ := List.cons.inj hls
      cases front with
      | nil =>
        refine ⟨gap, after, ?_, hgap, ?_, hafter⟩
        · simp [tightSpelling]
        · rintro _ ⟨⟩
          rfl
      | cons y front =>
        have hy : y.gap = false := htight y List.mem_cons_self
        obtain ⟨gap', after', rfl, -, hhead, hrest⟩ := ih hafter (List.cons_ne_nil _ _)
          (fun z hz => htight z (List.mem_cons_of_mem _ hz)) hlater
        have hgap' := hhead y rfl
        rw [hy] at hgap'
        have hnil : gap' = [] := by simpa using hgap'
        subst hnil
        refine ⟨gap, after', ?_, hgap, ?_, hrest⟩
        · simp [tightSpelling]
        · rintro _ ⟨⟩
          rfl

/-- The text goes on with the gap and the characters of its first lexeme. -/
theorem Spelled.cons_eq (hspelled : Spelled s (y :: rest)) (hy : y.lexeme ≠ Lexeme.ending) :
    ∃ gap after, s = gap ++ (y.lexeme.chars ++ after) ∧ IsGap gap ∧ y.gap = !gap.isEmpty ∧
      Starts y.lexeme after ∧ Spelled after rest := by
  cases hspelled with
  | ending => exact absurd rfl hy
  | lexeme hgap hstarts hafter => exact ⟨_, _, rfl, hgap, rfl, hstarts, hafter⟩

theorem Spelled.starts_of_eq {gap after : List Char}
    (hspelled : Spelled (gap ++ (y.lexeme.chars ++ after)) (y :: rest)) (hgap : IsGap gap)
    (hstops : Stops isBlank (y.lexeme.chars ++ after)) (hy : y.lexeme ≠ Lexeme.ending) :
    Starts y.lexeme after := by
  -- both ways of cutting the blanks off leave the lexeme in front
  obtain ⟨gap', after', htext, hgap', -, hstarts, -⟩ := hspelled.cons_eq hy
  have htrim := congrArg trimLeft htext
  rw [trimLeft_gap hgap, trimLeft_gap hgap', trimLeft_of_stops hstops,
    trimLeft_of_stops (hstarts.stops_isBlank _)] at htrim
  rwa [List.append_cancel_left htrim]

/-- A lexeme that is no ending, its gap, and what follows it. -/
theorem exists_lexeme {kind : Lexeme.Kind} (hspelled : Spelled s (y :: rest))
    (hy : y.lexeme.kind = kind) (hkind : kind ≠ .ending) :
    ∃ gap after, s = gap ++ (y.lexeme.chars ++ after) ∧ IsGap gap ∧ y.gap = !gap.isEmpty ∧
      Starts y.lexeme after ∧ Spelled after rest :=
  hspelled.cons_eq fun h => hkind (hy ▸ congrArg Lexeme.kind h)

theorem Spelled.isGap (hspelled : Spelled s (y :: rest)) (hy : y.lexeme.kind = .ending) :
    IsGap s ∧ rest = [] := by
  cases hspelled with
  | ending hgap => exact ⟨hgap, rfl⟩
  | lexeme _ hstarts _ => exact absurd hy hstarts.ne_ending

/-- A fragment ends in front of blanks, of a bar, of a comma, and where the text ends. -/
theorem Spelled.stops_isInner (hspelled : Spelled s (y :: rest))
    (hy : y.gap = true ∨ y.lexeme.kind ∈ [.ending, .pipe, .comma]) : Stops isInner s := by
  cases hspelled with
  | ending hgap => exact stops_isInner_of_isGap hgap
  | @lexeme gap after l ls hgap hstarts hafter =>
    rcases hy with hy | hkind
    · exact stops_isInner_gap hgap (by simpa using hy) _
    · by_cases hnil : gap = []
      · subst hnil
        have hl : l = pipe ∨ l = comma := by
          simp only [List.mem_cons, List.not_mem_nil, or_false] at hkind
          rcases hkind with h | h | h
          · exact absurd h hstarts.ne_ending
          · exact .inl (hstarts.eq_of_kind rfl h)
          · exact .inr (hstarts.eq_of_kind rfl h)
        rcases hl with rfl | rfl <;> exact stops_cons.mpr (by decide)
      · exact stops_isInner_gap hgap hnil _

end Lexeme

namespace Grammar

open Lexeme

/-- No blanks stand inside an expression, if neighbours say so that are not told apart otherwise. -/
theorem Forms.tight {R : Spaced → Spaced → Prop} {front : List Spaced}
    (hforms : Forms .expression (front.map (·.lexeme))) (hchain : front.IsChain R)
    (hgap : ∀ {x y : Spaced}, x.lexeme.kind ∈ innerKinds → y.lexeme.kind ∈ innerKinds →
      ¬ NewWord x.lexeme y.lexeme → R x y → y.gap = false) : Tight front := by
  have hwords : front.IsChain fun x y => ¬ NewWord x.lexeme y.lexeme :=
    (List.isChain_map _).mp hforms.isChain
  have hkinds : ∀ x ∈ front, x.lexeme.kind ∈ innerKinds := fun x hx =>
    hforms.kinds _ (List.mem_map_of_mem hx)
  clear hforms
  induction front with
  | nil => exact fun _ hx => nomatch hx
  | cons x front ih =>
    cases front with
    | nil => exact fun _ hx => nomatch hx
    | cons y front =>
      obtain ⟨hxy, hchain⟩ := List.isChain_cons_cons.mp hchain
      obtain ⟨hword, hwords⟩ := List.isChain_cons_cons.mp hwords
      obtain ⟨hx, hkinds⟩ := List.forall_mem_cons.mp hkinds
      exact List.forall_mem_cons.mpr ⟨hgap hx (hkinds y List.mem_cons_self) hword hxy,
        ih hchain hwords hkinds⟩

theorem exists_of_looksAt {ls : List Spaced} (hname : looksAt .identifier 0 (ls.map (·.lexeme)) = true)
    (hcolon : looksAt .colon 1 (ls.map (·.lexeme)) = true) :
    ∃ k c more, ls = k :: c :: more ∧ k.lexeme.kind = .identifier ∧ c.lexeme.kind = .colon := by
  match ls with
  | [] => cases hname
  | [k] => cases hcolon
  | k :: c :: more => exact ⟨k, c, more, rfl, beq_iff_eq.mp hname, beq_iff_eq.mp hcolon⟩

theorem exists_of_take? {kind : Lexeme.Kind} {ls : List Spaced} {found : List Char × Rest}
    (htake : take? kind (ls.map (·.lexeme)) = some found) (hkind : kind ≠ .ending) :
    ∃ y more, ls = y :: more ∧ y.lexeme.kind = kind ∧
      found = (y.lexeme.chars, more.map (·.lexeme)) := by
  obtain ⟨hcurrent, hfound⟩ := take?_eq_some htake
  cases ls with
  | nil => exact absurd hcurrent.symm hkind
  | cons y more => exact ⟨y, more, rfl, hcurrent, hfound⟩

/-- An expression at the front of the lexemes of a text, written without blanks in it, is an operand at
the front of the text. -/
theorem exists_operand {s t : List Char} {ls : List Spaced} {rest : Rest} (hspelled : Spelled s ls)
    (hread : expression (ls.map (·.lexeme)) = .ok (t, rest)) :
    ∃ front back, ls = front ++ back ∧ back.map (·.lexeme) = rest ∧
      Forms .expression (front.map (·.lexeme)) ∧ t = tightSpelling front ∧ Operand t ∧
      (Tight front → ∃ gap after, s = gap ++ (t ++ after) ∧ IsGap gap ∧
        (∀ x ∈ front.head?, x.gap = !gap.isEmpty) ∧ Spelled after back) := by
  have hproper : Proper (ls.map (·.lexeme)) := List.forall_mem_map.mpr hspelled.forall_starts
  obtain ⟨lexemes, hforms, hls, rfl⟩ := forms_of_expression hproper hread
  obtain ⟨front, back, rfl, rfl, rfl⟩ := List.map_eq_append_iff.mp hls
  rw [List.map_append] at hproper
  refine ⟨front, back, rfl, rfl, hforms, rfl, operand_of_forms hforms hproper.left, fun htight => ?_⟩
  refine hspelled.split ?_ htight fun x hx h => ?_
  · rintro rfl
    obtain ⟨l, more, hnil, -⟩ := hforms.head
    cases hnil
  · have := hforms.kinds _ (List.mem_map_of_mem hx)
    rw [h] at this
    exact absurd this (by decide)

end Grammar

end Stencil
