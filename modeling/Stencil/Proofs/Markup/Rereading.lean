import Stencil.Markup.Cursor
import Stencil.Proofs.Markup.Coverage
import Stencil.Proofs.Markup.Layout

/-!
# Normal forms are read again

The strict grammar gives an expression in its normal form, where nothing stands between its lexemes any more.

* `Kind.EndsAt kind after`: the text behind a lexeme of an expression does not go on with it. This is so where
  the normal form ends, and in front of every lexeme that may stand next to it in an expression
  (`Adjoin.endsAt`).
* `scan_spelling`: the lexemes of an expression are found again in its normal form.
* `normal_form_reread`: what is read at the start of a markup is read again from its normal form, and all of it.
-/

namespace Stencil

open Text

/-! ## Where lexemes end -/

namespace Lexeme

variable {l : Lexeme} {kind : Kind} {chars after : List Char}

/-- Behind a lexeme of an expression the text does not go on with it: not with name characters behind a name,
with digits or a point and digits behind a number, or with a dot behind a dot. No blank stands behind a name,
since it would make an operator of the word for membership. -/
structure Kind.EndsAt (kind : Kind) (after : List Char) : Prop where
  name : kind = .identifier → Stops (fun d => isNameChar d || d == '?') after ∧ Stops isBlank after
  number : kind = .number → Stops isDecimal after ∧ ∀ rest, after = '.' :: rest → Stops isDecimal rest
  dot : kind = .dot → Stops (· == '.') after

theorem Kind.endsAt_nil (kind : Kind) : kind.EndsAt [] :=
  ⟨fun _ => ⟨stops_nil, stops_nil⟩, fun _ => ⟨stops_nil, nofun⟩, fun _ => stops_nil⟩

/-- A lexeme of an expression stands in front of every text that does not go on with it. -/
theorem Kind.Matches.starts (hmatches : kind.Matches chars) (hkind : kind ∈ innerKinds)
    (hends : kind.EndsAt after) : Starts ⟨kind, chars⟩ after := by
  cases hmatches with
  | comparison => exact absurd hkind (by decide)
  | string hquote hcontent => exact .string after hquote hcontent
  | whole hsign hne hdigits =>
    obtain ⟨hdigit, hpoint⟩ := hends.number rfl
    exact .whole hsign hne hdigits hdigit hpoint
  | decimal hsign hne hdigits hpart hparts =>
    exact .decimal hsign hne hdigits hpart hparts (hends.number rfl).1
  | identifier hstart hname =>
    obtain ⟨hstops, hblank⟩ := hends.name rfl
    exact .identifier hstart hname hstops fun _ => hblank
  | asked hstart hname => exact .asked after hstart hname
  | dotdot => exact .dotdot after
  | single hchar =>
    refine .single hchar ?_ ?_
    · rintro rfl
      cases hchar
      exact hends.dot rfl
    · rintro rfl
      cases hchar
      exact absurd hkind (by decide)

theorem Starts.exists_start (hstarts : Starts l after) (hkind : l.kind = .identifier) :
    ∃ c name, l.chars = c :: name ∧ isIdentifierStart c = true := by
  cases hstarts with
  | identifier hstart | asked _ hstart => exact ⟨_, _, rfl, hstart⟩
  | single hchar => exact absurd hkind (Kind.ne_of_ofChar? hchar (by decide))
  | _ => cases hkind

/-- The lexemes that may stand behind a name in an expression. -/
def joints : List Lexeme := [openSquare, dot, closeSquare, closeRound, dots]

theorem Starts.mem_joints (hstarts : Starts l after) (hkind : l.kind ∈ joints.map (·.kind)) : l ∈ joints := by
  simp only [joints, List.map_cons, List.map_nil, List.mem_cons, List.not_mem_nil, or_false] at hkind
  rcases hkind with h | h | h | h | h
  · rw [hstarts.eq_of_kind (c := '[') rfl h]
    decide
  · rw [hstarts.eq_of_kind (c := '.') rfl h]
    decide
  · rw [hstarts.eq_of_kind (c := ']') rfl h]
    decide
  · rw [hstarts.eq_of_kind (c := ')') rfl h]
    decide
  · rw [hstarts.eq_dots h]
    decide

end Lexeme

namespace Grammar

open Lexeme

variable {l m : Lexeme} {ls : List Lexeme}

/-- **In front of a lexeme that may stand next to it, a lexeme ends.** -/
theorem Adjoin.endsAt (hadjoin : Adjoin l m) {afterSecond : List Char} (hm : Starts m afterSecond)
    (after : List Char) : l.kind.EndsAt (m.chars ++ after) where
  name hkind := by
    have hall : ∀ pair ∈ neighbours, pair.1 = .identifier → pair.2 ∈ joints.map (·.kind) := by decide
    have hmem := hm.mem_joints (hall _ hadjoin hkind)
    simp only [joints, List.mem_cons, List.not_mem_nil, or_false] at hmem
    rcases hmem with rfl | rfl | rfl | rfl | rfl <;>
      exact ⟨stops_cons.mpr (by decide), stops_cons.mpr (by decide)⟩
  number hkind := by
    have hall : ∀ pair ∈ neighbours, pair.1 = .number → pair.2 ∈ joints.map (·.kind) ∧ pair.2 ≠ .dot := by
      decide
    obtain ⟨hkinds, hdot⟩ := hall _ hadjoin hkind
    have hmem := hm.mem_joints hkinds
    simp only [joints, List.mem_cons, List.not_mem_nil, or_false] at hmem
    rcases hmem with rfl | rfl | rfl | rfl | rfl
    · exact ⟨stops_cons.mpr (by decide), nofun⟩
    · exact absurd rfl hdot
    · exact ⟨stops_cons.mpr (by decide), nofun⟩
    · exact ⟨stops_cons.mpr (by decide), nofun⟩
    · -- behind the first of two dots there are no digits either
      refine ⟨stops_cons.mpr (by decide), fun rest hrest => ?_⟩
      cases hrest
      exact stops_cons.mpr (by decide)
  dot hkind := by
    have hall : ∀ pair ∈ neighbours, pair.1 = .dot → pair.2 = .identifier := by decide
    obtain ⟨c, name, hchars, hstart⟩ := hm.exists_start (hall _ hadjoin hkind)
    rw [hchars, List.cons_append, stops_cons, beq_eq_false_iff_ne]
    rintro rfl
    exact absurd hstart (by decide)

/-- Without blanks between them, lexemes of which every one may stand next to the one before it are found
again. -/
theorem spelled_spelling (hstarts : ∀ l ∈ ls, l.kind ∈ innerKinds ∧ ∃ after, Starts l after)
    (hchain : ls.IsChain Adjoin) :
    Spelled (spelling ls) (ls.map (⟨false, ·⟩) ++ [⟨false, ending⟩]) := by
  induction ls with
  | nil => exact .ending isGap_nil
  | cons l ls ih =>
    obtain ⟨⟨hkind, _, hl⟩, hlater⟩ := List.forall_mem_cons.mp hstarts
    obtain ⟨hmeet, hchain⟩ := List.isChain_cons.mp hchain
    have hends : l.kind.EndsAt (spelling ls) := by
      cases ls with
      | nil => exact l.kind.endsAt_nil
      | cons m ls =>
        obtain ⟨-, _, hm⟩ := hlater m List.mem_cons_self
        exact (hmeet m rfl).endsAt hm (spelling ls)
    exact (ih hlater hchain).cons (hl.matches.starts hkind hends)

/-- **The lexemes of an expression are found again in its normal form.** -/
theorem scan_spelling (hforms : Forms .expression ls) (hproper : Proper ls) :
    scan (spelling ls) = .ok (ls ++ [ending]) := by
  have hstarts : ∀ l ∈ ls, l.kind ∈ innerKinds ∧ ∃ after, Starts l after := fun l hl =>
    ⟨hforms.kinds l hl, hproper.starts hl (hforms.kinds l hl)⟩
  refine scan_eq_ok_iff.mpr ⟨_, spelled_spelling hstarts hforms.adjoin, ?_⟩
  rw [List.map_append, List.map_map]
  exact congrArg (· ++ [ending]) (List.map_id ls)

theorem ne_nil_of_lexemes {markup : List Char} (hlexemes : lexemes markup = .ok ls) : ls ≠ [] := by
  obtain ⟨spaced, hspelled, rfl⟩ := scan_eq_ok_iff.mp (mapError_eq_ok_iff.mp hlexemes)
  cases hspelled <;> exact List.cons_ne_nil _ _

/-- An expression at the front of a markup is read again from its normal form, and nothing is left. -/
theorem exists_reread {markup t : List Char} {rest : Rest} (hlexemes : lexemes markup = .ok ls)
    (hread : expression ls = .ok (t, rest)) :
    ∃ front, ls = front ++ rest ∧ lexemes t = .ok (front ++ [ending]) ∧
      expression (front ++ [ending]) = .ok (t, [ending]) := by
  have hproper := proper_of_lexemes hlexemes
  obtain ⟨front, hforms, rfl, rfl⟩ := forms_of_expression hproper hread
  refine ⟨front, rfl, ?_, expression_of_forms hforms ?_⟩
  · rw [lexemes, scan_spelling hforms hproper.left, Except.mapError]
  · rintro _ ⟨⟩
    decide

end Grammar

/-! ## Reading from the start -/

namespace Cursor

variable {c after : Cursor} {ls : List Lexeme} {t : String}

theorem ofMarkup_eq_ok_iff {markup : List Char} :
    ofMarkup markup = .ok c ↔ ∃ ls, Grammar.lexemes markup = .ok ls ∧ c = { lexemes := ls } := by
  unfold ofMarkup
  cases Grammar.lexemes markup with
  | ok ls => simp [eq_comm]
  | error e => simp [complain]

/-- What is read at the start is what the grammar reads off all lexemes, and the cursor moves behind it. -/
theorem read_start_eq_ok_iff {reader : Grammar.Rest → Grammar.Reading} (hne : ls ≠ []) :
    read { lexemes := ls } reader = (.ok t, after) ↔ ∃ text rest, reader ls = .ok (text, rest) ∧
      t = String.ofList text ∧ after = { lexemes := ls, position := (ls.length - rest.length : Nat) } := by
  obtain ⟨l, later, rfl⟩ := List.exists_cons_of_ne_nil hne
  have hcurrent : current { lexemes := l :: later } = .ok l := by
    have hfirst : min 0 (((l :: later).length : Int) - 1) = 0 := by
      rw [List.length_cons]
      omega
    rw [current, hfirst]
    rfl
  have hview : view { lexemes := l :: later } = l :: later := rfl
  unfold read
  rw [hcurrent, hview]
  cases reader (l :: later) with
  | error r => simp [complain]
  | ok found =>
    obtain ⟨text, rest⟩ := found
    simp [moveTo, hview, advance, eq_comm]

end Cursor

/-- **Normal forms are read again.** What is read at the start of a markup takes some of its lexemes. The
lexemes of the text it gives are these and the ending, so that the same text is read from there, up to the
ending. -/
theorem normal_form_reread {markup : List Char} {c after : Cursor} {t : String}
    (hcursor : Cursor.ofMarkup markup = .ok c) (hread : c.read Grammar.expression = (.ok t, after)) :
    ∃ consumed rest, c.lexemes = consumed ++ rest ∧ after = { c with position := consumed.length } ∧
      ∃ again, Cursor.ofMarkup t.toList = .ok again ∧ again.lexemes = consumed ++ [.ending] ∧
        again.read Grammar.expression = (.ok t, { again with position := consumed.length }) := by
  obtain ⟨ls, hlexemes, rfl⟩ := Cursor.ofMarkup_eq_ok_iff.mp hcursor
  have hne : ls ≠ [] := Grammar.ne_nil_of_lexemes hlexemes
  obtain ⟨text, rest, hexpression, rfl, rfl⟩ := (Cursor.read_start_eq_ok_iff hne).mp hread
  obtain ⟨consumed, rfl, hagain, hreread⟩ := Grammar.exists_reread hlexemes hexpression
  refine ⟨consumed, rest, rfl, by simp, _, Cursor.ofMarkup_eq_ok_iff.mpr ⟨_, ?_, rfl⟩, rfl, ?_⟩
  · rwa [String.toList_ofList]
  · exact (Cursor.read_start_eq_ok_iff (by simp)).mpr ⟨_, _, hreread, rfl, by simp⟩

/-- Blanks and what stands behind the range are lost. -/
theorem normal_form_reread_range :
    let ls : List Lexeme := [.openRound, ⟨.number, ['1']⟩, .dots, ⟨.identifier, ['a']⟩, .openSquare,
      ⟨.string, "' '".toList⟩, .closeSquare, .closeRound]
    ∃ c again, Cursor.ofMarkup "(1 ..a [' ']) - 2".toList = .ok c ∧
      c.read Grammar.expression = (.ok "(1..a[' '])", { c with position := 8 }) ∧
      Cursor.ofMarkup "(1..a[' '])".toList = .ok again ∧ again.lexemes = ls ++ [.ending] ∧
      again.read Grammar.expression = (.ok "(1..a[' '])", { again with position := 8 }) := by
  intro ls
  let c : Cursor := { lexemes := ls ++ [⟨.dash, ['-']⟩, ⟨.number, ['2']⟩, .ending] }
  have hcursor : Cursor.ofMarkup "(1 ..a [' ']) - 2".toList = .ok c := rfl
  have hread : c.read Grammar.expression = (.ok "(1..a[' '])", { c with position := 8 }) := rfl
  obtain ⟨consumed, rest, hlexemes, hafter, again, hagain, hfound, hreread⟩ := normal_form_reread hcursor hread
  have hlength : ls.length = consumed.length := Int.ofNat_inj.mp (Cursor.mk.inj hafter).2
  obtain rfl : ls = consumed := List.append_inj_left hlexemes hlength
  exact ⟨c, again, hcursor, hread, hagain, hfound, hreread⟩

end Stencil
