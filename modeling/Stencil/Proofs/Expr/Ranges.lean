import Stencil.Proofs.Expr.Reading
import Stencil.Proofs.Markup.NormalForms

/-!
# Ranges

The strict grammar writes a range without blanks between its lexemes, and the reader of expressions
cuts what is written at its last two dots, if there are no blanks at all.

* `rangeEnds?_rangeText_iff`: it finds the ends that were written just when neither of them holds a
  blank and the last one holds no two dots.
* `read_range_of_strict`: what the ranges of the strict grammar are read as.
-/

namespace Stencil

open Text

/-! ## First and last characters of an expression -/

namespace Lexeme

theorem spelling_getLast? {ls : List Lexeme} {l : Lexeme} (hl : l ∈ ls.getLast?)
    (hne : l.chars ≠ []) : (spelling ls).getLast? = l.chars.getLast? := by
  obtain ⟨front, rfl⟩ := List.getLast?_eq_some_iff.mp hl
  rw [spelling_append, spelling_cons, spelling_nil, List.append_nil,
    List.getLast?_append_of_ne_nil _ hne]

end Lexeme

namespace Grammar

open Lexeme

/-- An expression is written with something, and no dot stands at its ends. -/
theorem Forms.spelling_ends {ls : List Lexeme} (hforms : Forms .expression ls) (hproper : Proper ls) :
    spelling ls ≠ [] ∧ (∀ c ∈ (spelling ls).head?, c ≠ '.') ∧
      ∀ c ∈ (spelling ls).getLast?, c ≠ '.' := by
  have hnodot : ∀ kind ∈ startingKinds ++ endingKinds, kind ∉ dotKinds ∧ kind ≠ .ending := by decide
  have hends {l : Lexeme} (hl : l ∈ ls) (hkind : l.kind ∈ startingKinds ++ endingKinds) :
      l.chars ≠ [] ∧ (∀ c ∈ l.chars.head?, c ≠ '.') ∧ ∀ c ∈ l.chars.getLast?, c ≠ '.' := by
    obtain ⟨hdots, hending⟩ := hnodot _ hkind
    rcases hproper l hl with rfl | ⟨after, hstarts⟩
    · exact absurd rfl hending
    · obtain ⟨c, rest, hchars, -⟩ := hstarts.chars_eq
      exact ⟨by rw [hchars]; nofun, fun c hc h => hdots (hstarts.dotKinds_of_head (h ▸ hc)),
        fun c hc h => hdots (hstarts.dotKinds_of_getLast (h ▸ hc))⟩
  obtain ⟨l, rest, rfl, hkind⟩ := hforms.head
  obtain ⟨hne, hhead, -⟩ := hends List.mem_cons_self (List.mem_append_left _ hkind)
  have hlast := List.getLast?_eq_some_getLast (List.cons_ne_nil l rest)
  generalize (l :: rest).getLast _ = last at hlast
  obtain ⟨hneLast, -, hback⟩ := hends (List.mem_of_getLast? hlast)
    (List.mem_append_right _ (hforms.getLast last hlast).1)
  refine ⟨?_, ?_, ?_⟩
  · simp [hne]
  · rwa [spelling_cons, List.head?_append_of_ne_nil _ hne]
  · rwa [spelling_getLast? hlast hneLast]

end Grammar

/-! ## Cutting at two dots -/

namespace Expr

variable {first last : List Char}

/-- Dots further behind are preferred. -/
theorem cutDots?_cons_of_some {c : Char} {rest before behind : List Char}
    (hcut : cutDots? rest = some (before, behind)) :
    cutDots? (c :: rest) = some (c :: before, behind) := by
  unfold cutDots?
  rw [hcut]

theorem cutDots?_of_none (hne : last ≠ []) (hdot : last.head? ≠ some '.')
    (hnone : cutDots? last = none) : cutDots? (first ++ '.' :: '.' :: last) = some (first, last) := by
  obtain ⟨d, after, rfl⟩ := List.exists_cons_of_ne_nil hne
  have hsecond : cutDots? ('.' :: d :: after) = none := by
    unfold cutDots?
    rw [hnone]
    dsimp only
    split
    · next heq => exact absurd (congrArg List.head? heq) hdot
    · rfl
  induction first with
  | nil => rw [List.nil_append, cutDots?, hsecond]
  | cons c first ih => exact cutDots?_cons_of_some ih

theorem cutDots?_append_of_some {front before behind : List Char}
    (hcut : cutDots? last = some (before, behind)) :
    cutDots? (front ++ last) = some (front ++ before, behind) := by
  induction front with
  | nil => exact hcut
  | cons c front ih => exact cutDots?_cons_of_some ih

theorem cutDots?_eq_none_iff (hend : ∀ c ∈ last.getLast?, c ≠ '.') :
    cutDots? last = none ↔ ¬ ['.', '.'] <:+: last := by
  constructor
  · rintro hnone ⟨before, behind, rfl⟩
    cases behind with
    | nil => simp at hend
    | cons d after =>
      have hfirst : ∃ cut, cutDots? ('.' :: '.' :: d :: after) = some cut := by
        cases hsecond : cutDots? ('.' :: d :: after) with
        | none =>
          unfold cutDots?
          rw [hsecond]
          exact ⟨_, rfl⟩
        | some cut => exact ⟨_, cutDots?_cons_of_some hsecond⟩
      obtain ⟨cut, hcut⟩ := hfirst
      rw [List.append_assoc, List.cons_append, List.singleton_append,
        cutDots?_append_of_some hcut] at hnone
      cases hnone
  · intro hno
    cases hcut : cutDots? last with
    | none => rfl
    | some cut =>
      refine absurd ⟨cut.1, cut.2, ?_⟩ hno
      rw [(cutDots?_eq_some hcut).1]
      simp

/-- A range as the strict grammar writes it. -/
def rangeText (first last : List Char) : List Char := '(' :: (first ++ '.' :: '.' :: last) ++ [')']

theorem rangeEnds?_paren (body : List Char) :
    rangeEnds? ('(' :: body ++ [')']) =
      if body.any isBlank then none else (cutDots? body).filter fun (first, _) => !first.isEmpty := by
  unfold rangeEnds?
  rw [List.getLast?_concat]
  simp

/-- The ends that were written are found when there are no blanks in them and no two dots in the last
one, and only then. -/
theorem rangeEnds?_rangeText_iff (hfirst : first ≠ []) (hlast : last ≠ [])
    (hhead : ∀ c ∈ last.head?, c ≠ '.') (hend : ∀ c ∈ last.getLast?, c ≠ '.') :
    rangeEnds? (rangeText first last) = some (first, last) ↔
      (∀ c ∈ first ++ last, isBlank c = false) ∧ ¬ ['.', '.'] <:+: last := by
  have hblanks : (first ++ '.' :: '.' :: last).any isBlank = false ↔
      ∀ c ∈ first ++ last, isBlank c = false := by
    have hdot : isBlank '.' = false := by decide
    simp [List.any_eq_false, hdot, or_imp, forall_and]
  rw [rangeText, rangeEnds?_paren, ← hblanks, ← cutDots?_eq_none_iff hend]
  cases hblank : (first ++ '.' :: '.' :: last).any isBlank with
  | true => simp
  | false =>
    simp only [Bool.false_eq_true, if_false, true_and]
    constructor
    · intro hends
      cases hcut : cutDots? last with
      | none => rfl
      | some cut =>
        rw [show first ++ '.' :: '.' :: last = (first ++ ['.', '.']) ++ last by simp,
          cutDots?_append_of_some hcut] at hends
        obtain ⟨heq, -⟩ := Option.filter_eq_some_iff.mp hends
        have hlength := congrArg List.length (Prod.mk.inj (Option.some.inj heq)).1
        simp only [List.length_append, List.length_cons] at hlength
        omega
    · intro hnone
      rw [cutDots?_of_none hlast (fun h => hhead '.' h rfl) hnone]
      exact Option.filter_eq_some_iff.mpr ⟨rfl, by simpa using hfirst⟩

/-- With a blank in it, what is written as a range is read as a path. -/
theorem read_rangeText_of_blank (hblank : ∃ c ∈ first ++ last, isBlank c = true) {e : Expr}
    (hread : read (rangeText first last) = .ok e) : ∃ root path, e = .lookup root path := by
  have hany : (first ++ '.' :: '.' :: last).any isBlank = true := by
    obtain ⟨c, hmem, hc⟩ := hblank
    refine List.any_eq_true.mpr ⟨c, ?_, hc⟩
    rcases List.mem_append.mp hmem with h | h <;> simp [h]
  have hends : rangeEnds? (rangeText first last) = none := by
    rw [rangeText, rangeEnds?_paren, if_pos hany]
  have hnumber : leadingNumber? (rangeText first last) = none := by
    rw [rangeText, List.cons_append, leadingNumber?,
      Lexeme.number?_eq_none (by decide) fun h => absurd h (by decide)]
  have htrim : trim (rangeText first last) = rangeText first last := trim_paren _
  rw [read_parts htrim (not_mem_literalWords (by decide)) (quotedContent?_eq_none (by decide))
    (isWholeNumber_eq_false (by decide) (by decide)) hends hnumber] at hread
  split at hread
  · cases hread
    exact ⟨_, _, rfl⟩
  · obtain ⟨root, -, hread⟩ := bind_eq_ok_iff.mp hread
    obtain ⟨path, -, hread⟩ := bind_eq_ok_iff.mp hread
    cases hread
    exact ⟨_, _, rfl⟩

/-- With two dots in its last end, and no blanks, it is cut at the last of those. -/
theorem rangeEnds?_rangeText_of_dots (hblank : ∀ c ∈ first ++ last, isBlank c = false)
    (hdots : ['.', '.'] <:+: last) (hfirst : first ≠ []) (hend : ∀ c ∈ last.getLast?, c ≠ '.') :
    ∃ before behind, last = before ++ '.' :: '.' :: behind ∧
      rangeEnds? (rangeText first last) = some (first ++ '.' :: '.' :: before, behind) := by
  have hany : (first ++ '.' :: '.' :: last).any isBlank = false := by
    have hdot : isBlank '.' = false := by decide
    simp [List.any_eq_false, hdot, or_imp, forall_and] at hblank ⊢
    exact hblank
  cases hcut : cutDots? last with
  | none => exact absurd hdots ((cutDots?_eq_none_iff hend).mp hcut)
  | some cut =>
    refine ⟨cut.1, cut.2, (cutDots?_eq_some hcut).1, ?_⟩
    rw [rangeText, rangeEnds?_paren, hany, if_neg (by decide),
      show first ++ '.' :: '.' :: last = (first ++ ['.', '.']) ++ last by simp,
      cutDots?_append_of_some hcut]
    exact Option.filter_eq_some_iff.mpr ⟨by simp, by simp [hfirst]⟩

/-! ## Ranges of the strict grammar -/

/-- The expression is the range between two others: a node with both as its ends, or, when both are
values, the whole numbers between them. -/
def IsRange (first last e : Expr) : Prop :=
  e = .range first last ∨
    ∃ v w start stop, first = .value v ∧ last = .value w ∧ v.toInt #[] = .ok start ∧
      w.toInt #[] = .ok stop ∧ e = .value (.range (.inclusive start stop))

theorem isRange_of_between {first last e : Expr} (h : between first last = .ok e) :
    IsRange first last e := by
  unfold between at h
  split at h
  · next v w =>
    split at h
    · cases h
      exact .inl rfl
    · obtain ⟨start, hstart, h⟩ := bind_eq_ok_iff.mp h
      obtain ⟨stop, hstop, h⟩ := bind_eq_ok_iff.mp h
      cases h
      exact .inr ⟨v, w, start, stop, rfl, rfl, hstart, hstop, rfl⟩
  · cases h
    exact .inl rfl

/-- **Ranges of the strict grammar.** What is read as a range in parentheses is written with the texts
of its two ends. If they hold no blanks, and the last one no two dots, it is read as the range between
what they are read as. With a blank it is read as a path, and else it is cut at the last two dots. -/
theorem read_range_of_strict {markup text : List Char} {before ls rest : List Lexeme}
    (hlexemes : Grammar.lexemes markup = .ok (before ++ Lexeme.openRound :: ls))
    (hstrict : Grammar.expression (Lexeme.openRound :: ls) = .ok (text, rest)) :
    ∃ first last middle,
      Grammar.expression ls = .ok (first, Lexeme.dots :: middle) ∧
      Grammar.expression middle = .ok (last, Lexeme.closeRound :: rest) ∧
      text = rangeText first last ∧
      ((∀ c ∈ first ++ last, isBlank c = false) → ¬ ['.', '.'] <:+: last →
        read text = (do between (← read first) (← read last)) ∧
        ∀ e, read text = .ok e →
          ∃ x y, read first = .ok x ∧ read last = .ok y ∧ IsRange x y e) ∧
      ((∃ c ∈ first ++ last, isBlank c = true) →
        ∀ e, read text = .ok e → ∃ root path, e = .lookup root path) ∧
      ((∀ c ∈ first ++ last, isBlank c = false) → ['.', '.'] <:+: last →
        ∃ front back, last = front ++ '.' :: '.' :: back ∧
          read text = (do between (← read (first ++ '.' :: '.' :: front)) (← read back))) := by
  have hproper : Grammar.Proper (Lexeme.openRound :: ls) := (Grammar.proper_of_lexemes hlexemes).right
  obtain ⟨front, hforms, hfront, rfl⟩ := Grammar.forms_of_expression hproper hstrict
  cases hforms with
  | literal hkind =>
    obtain ⟨rfl, rfl⟩ := List.cons.inj hfront
    rcases hkind with h | h <;> cases h
  | named hkind hsteps =>
    obtain ⟨rfl, rfl⟩ := List.cons.inj hfront
    cases hkind
  | bracketed hinner hsteps => cases (List.cons.inj hfront).1
  | @range first last hfirst hlast =>
    obtain ⟨-, hls⟩ := List.cons.inj hfront
    have hls : ls = first ++ Lexeme.dots :: (last ++ Lexeme.closeRound :: rest) := by
      rw [hls]
      simp
    subst hls
    obtain ⟨hneFirst, -, -⟩ := hfirst.spelling_ends hproper.tail.left
    obtain ⟨hneLast, hhead, hend⟩ := hlast.spelling_ends hproper.tail.right.tail.left
    have hread {front back : List Char}
        (hends : rangeEnds? (rangeText (Lexeme.spelling first) (Lexeme.spelling last)) =
          some (front, back)) := read_range hends
    have htext : Lexeme.spelling (Lexeme.openRound :: first ++ Lexeme.dots :: last ++
        [Lexeme.closeRound]) = rangeText (Lexeme.spelling first) (Lexeme.spelling last) := by
      simp [rangeText, Lexeme.openRound, Lexeme.dots, Lexeme.closeRound]
    rw [htext]
    refine ⟨Lexeme.spelling first, Lexeme.spelling last, last ++ Lexeme.closeRound :: rest,
      Grammar.expression_of_forms hfirst (by rintro _ ⟨⟩; decide),
      Grammar.expression_of_forms hlast (by rintro _ ⟨⟩; decide), rfl, fun hblank hdots => ?_,
      fun hblank e => read_rangeText_of_blank hblank, fun hblank hdots => ?_⟩
    · have heq := hread ((rangeEnds?_rangeText_iff hneFirst hneLast hhead hend).mpr ⟨hblank, hdots⟩)
      refine ⟨heq, fun e he => ?_⟩
      rw [heq] at he
      obtain ⟨x, hx, he⟩ := bind_eq_ok_iff.mp he
      obtain ⟨y, hy, he⟩ := bind_eq_ok_iff.mp he
      exact ⟨x, y, hx, hy, isRange_of_between he⟩
    · obtain ⟨front, back, hlast, hends⟩ := rangeEnds?_rangeText_of_dots hblank hdots hneFirst hend
      exact ⟨front, back, hlast, hread hends⟩

/-- The lexemes of a range from `a` to a path with a quoted key, behind the parenthesis. -/
def rangeLexemes (key : String) : List Lexeme :=
  [⟨.identifier, ['a']⟩, .dots, ⟨.identifier, ['b']⟩, .openSquare, ⟨.string, '"' :: key.toList ++ ['"']⟩,
    .closeSquare, .closeRound, .ending]

theorem read_range_of_strict_rangeLexemes :
    ∃ e, read "(a..b[\"x\"])".toList = .ok e ∧
      IsRange (.lookup (.value (.str "a")) [])
        (.lookup (.value (.str "b")) [.index (.value (.str "x"))]) e := by
  have hlexemes : Grammar.lexemes "( a .. b[\"x\"] )".toList =
      .ok ([] ++ .openRound :: rangeLexemes "x") := by rfl
  have hstrict : Grammar.expression (.openRound :: rangeLexemes "x") =
      .ok ("(a..b[\"x\"])".toList, [.ending]) := by rfl
  obtain ⟨first, last, middle, hfirst, hlast, htext, hkept, -⟩ :=
    read_range_of_strict hlexemes hstrict
  cases show Except.ok (['a'], _) = Except.ok (first, _) from hfirst
  cases show Except.ok ("b[\"x\"]".toList, _) = Except.ok (last, _) from hlast
  obtain ⟨hread, hrange⟩ := hkept (by decide) (by decide)
  refine ⟨_, hread, ?_⟩
  obtain ⟨x, y, hx, hy, hxy⟩ := hrange _ hread
  cases show Except.ok _ = Except.ok x from hx
  cases show Except.ok _ = Except.ok y from hy
  exact hxy

/-- Dots in a quoted key draw the ends of a range apart. -/
theorem read_range_dotsInKey :
    Grammar.lexemes "(a..b[\"x..y\"])".toList = .ok (.openRound :: rangeLexemes "x..y") ∧
      Grammar.expression (.openRound :: rangeLexemes "x..y") =
        .ok ("(a..b[\"x..y\"])".toList, [.ending]) ∧
      read "(a..b[\"x..y\"])".toList =
        .ok (.range (.lookup (.value (.str "a")) [.name "b", .name "x"])
          (.lookup (.value (.str "y")) [])) ∧
      ¬ ∃ x y e, read ['a'] = .ok x ∧ read "b[\"x..y\"]".toList = .ok y ∧
        read "(a..b[\"x..y\"])".toList = .ok e ∧ IsRange x y e := by
  have hread : read "(a..b[\"x..y\"])".toList =
      .ok (.range (.lookup (.value (.str "a")) [.name "b", .name "x"])
        (.lookup (.value (.str "y")) [])) := by rfl
  refine ⟨by rfl, by rfl, hread, ?_⟩
  rintro ⟨x, y, e, hx, -, he, hrange⟩
  cases show Except.ok (Expr.lookup (.value (.str "a")) []) = Except.ok x from hx
  rw [hread] at he
  cases he
  rcases hrange with heq | ⟨v, w, start, stop, heq, -⟩ <;> cases heq

end Expr

end Stencil
