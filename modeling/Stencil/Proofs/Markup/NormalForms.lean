import Mathlib.Data.List.Chain
import Stencil.Proofs.Markup.Layout
import Stencil.Proofs.Text.Runs

/-!
# What normal forms are made of

The strict grammar gives an expression in a normal form, without the blanks between its lexemes. Where two
lexemes meet in it, no run of digits goes on from one to the other, and no run of dots (`Forms.mayFollow`). So
the runs of a normal form are those of the markup (`runsBelow_of_expression`).
-/

namespace Stencil

open Text

/-! ## Lexemes of a markup -/

namespace Lexeme

/-- The characters of a lexeme stand in the markup. -/
theorem Spelled.within {s : List Char} {ls : List Spaced} (hspelled : Spelled s ls) :
    ∀ x ∈ ls, x.lexeme.chars <:+: s := by
  induction hspelled with
  | ending hgap => exact fun x hx => by rw [List.mem_singleton.mp hx]; exact List.nil_infix
  | @lexeme gap after l ls hgap hstarts hafter ih =>
    refine List.forall_mem_cons.mpr ⟨⟨gap, after, by simp⟩, fun x hx => (ih x hx).trans ?_⟩
    exact ⟨gap ++ l.chars, [], by simp⟩

/-- The kinds of lexemes in which digits stand at the end. -/
def digitEndings : List Kind := [.number, .identifier]

/-- The kinds of lexemes that are made of dots. -/
def dotKinds : List Kind := [.dot, .dotdot]

variable {l : Lexeme} {after : List Char} {c : Char}

theorem mem_of_getLast?_append {front back : List Char} (hback : back ≠ [])
    (hc : c ∈ (front ++ back).getLast?) : c ∈ back := by
  rw [List.getLast?_append_of_ne_nil _ hback] at hc
  exact List.mem_of_getLast? hc

/-- Only numbers start with a digit. -/
theorem Starts.number_of_head (hstarts : Starts l after) (hc : c ∈ l.chars.head?)
    (hdigit : isDecimal c = true) : l.kind = .number := by
  have hnot (hc : isDecimal c = false) : False := by
    rw [hdigit] at hc
    cases hc
  cases hstarts with
  | whole | decimal => rfl
  | @comparison chars _ hchars _ =>
    have hall : ∀ chars ∈ operators, ∀ c ∈ chars.head?, isDecimal c = false := by decide
    exact (hnot (hall chars hchars c hc)).elim
  | string _ hquote _ =>
    cases hc
    rcases hquote with rfl | rfl <;> exact (hnot (by decide)).elim
  | identifier hstart | asked _ hstart =>
    cases hc
    exact (hnot (isDecimal_of_isIdentifierStart hstart)).elim
  | dotdot =>
    cases hc
    exact (hnot (by decide)).elim
  | single hkind _ _ =>
    have hall : ∀ mark ∈ marks, isDecimal mark.1 = false := by decide
    cases hc
    exact (hnot (hall _ (Kind.mem_marks hkind))).elim

/-- Only numbers and identifiers end with a digit. -/
theorem Starts.mem_digitEndings (hstarts : Starts l after) (hc : c ∈ l.chars.getLast?)
    (hdigit : isDecimal c = true) : l.kind ∈ digitEndings := by
  have hnot (hc : isDecimal c = false) : False := by
    rw [hdigit] at hc
    cases hc
  cases hstarts with
  | whole | decimal => exact List.mem_cons_self
  | identifier | asked => exact List.mem_cons_of_mem _ List.mem_cons_self
  | @comparison chars _ hchars _ =>
    have hall : ∀ chars ∈ operators, ∀ c ∈ chars.getLast?, isDecimal c = false := by decide
    exact (hnot (hall chars hchars c hc)).elim
  | string _ hquote _ =>
    rw [List.getLast?_concat] at hc
    cases hc
    rcases hquote with rfl | rfl <;> exact (hnot (by decide)).elim
  | dotdot =>
    cases hc
    exact (hnot (by decide)).elim
  | single hkind _ _ =>
    have hall : ∀ mark ∈ marks, isDecimal mark.1 = false := by decide
    cases hc
    exact (hnot (hall _ (Kind.mem_marks hkind))).elim

/-- Only dots start with a dot. -/
theorem Starts.dotKinds_of_head (hstarts : Starts l after) (hc : '.' ∈ l.chars.head?) :
    l.kind ∈ dotKinds := by
  have hdigits {digits : List Char} (hdigits : ∀ c ∈ digits, isDecimal c = true) :
      '.' ∉ digits := fun hmem => absurd (hdigits _ hmem) (by decide)
  cases hstarts with
  | @comparison chars _ hchars _ =>
    have hall : ∀ chars ∈ operators, '.' ∉ chars := by decide
    exact absurd (List.mem_of_head? hc) (hall chars hchars)
  | string _ hquote _ =>
    cases hc
    rcases hquote with h | h <;> cases h
  | whole hsign _ hall _ _ =>
    rcases List.mem_append.mp (List.mem_of_head? hc) with hmem | hmem
    · rcases hsign with rfl | rfl <;> simp at hmem
    · exact absurd hmem (hdigits hall)
  | @decimal sign digits part _ hsign hne hall _ _ _ =>
    obtain ⟨d, digits, rfl⟩ := List.exists_cons_of_ne_nil hne
    rcases hsign with rfl | rfl
    · cases hc
      exact absurd List.mem_cons_self (hdigits hall)
    · cases hc
  | identifier hstart | asked _ hstart =>
    cases hc
    exact absurd hstart (by decide)
  | dotdot => decide
  | single hkind _ _ =>
    cases hc
    cases hkind
    decide

/-- Only dots end with a dot. -/
theorem Starts.dotKinds_of_getLast (hstarts : Starts l after) (hc : '.' ∈ l.chars.getLast?) :
    l.kind ∈ dotKinds := by
  have hdigits {digits : List Char} (hdigits : ∀ c ∈ digits, isDecimal c = true) :
      '.' ∉ digits := fun hmem => absurd (hdigits _ hmem) (by decide)
  cases hstarts with
  | @comparison chars _ hchars _ =>
    have hall : ∀ chars ∈ operators, '.' ∉ chars := by decide
    exact absurd (List.mem_of_getLast? hc) (hall chars hchars)
  | string _ hquote _ =>
    rw [List.getLast?_concat] at hc
    cases hc
    rcases hquote with h | h <;> cases h
  | whole _ hne hall _ _ => exact absurd (mem_of_getLast?_append hne hc) (hdigits hall)
  | @decimal sign digits part _ _ _ _ hne hall _ =>
    rw [← List.singleton_append, ← List.append_assoc] at hc
    exact absurd (mem_of_getLast?_append hne hc) (hdigits hall)
  | @identifier c name _ hstart hname _ _ =>
    have hall : ∀ d ∈ c :: name, isNameChar d = true :=
      List.forall_mem_cons.mpr ⟨isNameChar_of_isIdentifierStart hstart, hname⟩
    exact absurd (hall _ (List.mem_of_getLast? hc)) (by decide)
  | asked =>
    rw [List.getLast?_concat] at hc
    cases hc
  | dotdot => decide
  | single hkind _ _ =>
    cases hc
    cases hkind
    decide

end Lexeme

namespace Grammar

open Lexeme

/-! ## Where lexemes meet -/

/-- A lexeme of the second kind may follow one of the first kind: it does not go on with digits or dots. -/
def mayFollow (first second : Lexeme.Kind) : Bool :=
  !(digitEndings.contains first && second == .number) &&
    !(dotKinds.contains first && dotKinds.contains second)

/-- **Where lexemes of an expression meet, nothing goes on.** -/
theorem Forms.mayFollow {phrase : Phrase} {ls : List Lexeme} (hforms : Forms phrase ls) :
    ls.IsChain fun l m => Grammar.mayFollow l.kind m.kind = true := by
  have hall : ∀ pair ∈ neighbours, Grammar.mayFollow pair.1 pair.2 = true := by decide
  exact hforms.adjoin.imp fun x y hkinds => hall (x.kind, y.kind) hkinds

/-! ## The runs of a normal form -/

/-- In a spelling, no run goes on where lexemes meet. -/
theorem runsBelow_spelling {p : Char → Bool} {n : Nat} {ls : List Lexeme} (hn : 0 < n)
    (hne : ∀ l ∈ ls, l.chars ≠ []) (hruns : ∀ l ∈ ls, RunsBelow p n l.chars)
    (hmeet : ls.IsChain fun l m => ∀ c ∈ l.chars.getLast?, ∀ d ∈ m.chars.head?,
      ¬ (p c = true ∧ p d = true)) : RunsBelow p n (spelling ls) := by
  induction ls with
  | nil => exact runsBelow_of_none hn nofun
  | cons l ls ih =>
    obtain ⟨-, hne⟩ := List.forall_mem_cons.mp hne
    obtain ⟨hl, hruns⟩ := List.forall_mem_cons.mp hruns
    obtain ⟨hfirst, hrest⟩ := List.isChain_cons.mp hmeet
    rw [spelling_cons]
    refine hl.append (ih hne hruns hrest) fun c hc d hd => ?_
    cases ls with
    | nil => cases hd
    | cons m ls =>
      rw [spelling_cons, List.head?_append_of_ne_nil _ (hne m List.mem_cons_self)] at hd
      exact hfirst m rfl c hc d hd

/-- No lexeme goes on with characters of the class where another one may end with them. -/
def Interrupted (p : Char → Bool) : Prop :=
  ∀ {l m : Lexeme} {afterFirst afterSecond : List Char}, Starts l afterFirst → Starts m afterSecond →
    mayFollow l.kind m.kind = true →
      ∀ c ∈ l.chars.getLast?, ∀ d ∈ m.chars.head?, ¬ (p c = true ∧ p d = true)

theorem interrupted_digits : Interrupted isDecimal := by
  rintro l m _ _ hl hm hfollow c hc d hd ⟨hcdigit, hddigit⟩
  rw [mayFollow, List.contains_iff_mem.mpr (hl.mem_digitEndings hc hcdigit),
    hm.number_of_head hd hddigit] at hfollow
  simp at hfollow

theorem interrupted_dots : Interrupted (· == '.') := by
  rintro l m _ _ hl hm hfollow c hc d hd ⟨hcdot, hddot⟩
  rw [beq_iff_eq] at hcdot hddot
  subst hcdot hddot
  rw [mayFollow, List.contains_iff_mem.mpr (hl.dotKinds_of_getLast hc),
    List.contains_iff_mem.mpr (hm.dotKinds_of_head hd)] at hfollow
  simp at hfollow

variable {p : Char → Bool} {n : Nat} {markup t : List Char} {before ls rest : Rest}

/-- The lexemes of a markup have their characters from it. -/
theorem within_of_lexemes (hlexemes : lexemes markup = .ok ls) : ∀ l ∈ ls, l.chars <:+: markup := by
  obtain ⟨spelled, hspelled, rfl⟩ := scan_eq_ok_iff.mp (mapError_eq_ok_iff.mp hlexemes)
  exact List.forall_mem_map.mpr hspelled.within

theorem mem_of_expression (hlexemes : lexemes markup = .ok (before ++ ls))
    (hread : expression ls = .ok (t, rest)) : ∀ c ∈ t, c ∈ markup := by
  obtain ⟨front, -, rfl, rfl⟩ := forms_of_expression (proper_of_lexemes hlexemes).right hread
  intro c hc
  obtain ⟨l, hl, hc⟩ := List.mem_flatMap.mp hc
  exact (within_of_lexemes hlexemes l
    (List.mem_append_right _ (List.mem_append_left _ hl))).subset hc

/-- **The runs of a normal form are those of the markup.** -/
theorem runsBelow_of_expression (hp : Interrupted p) (hn : 0 < n) (hmarkup : RunsBelow p n markup)
    (hlexemes : lexemes markup = .ok (before ++ ls)) (hread : expression ls = .ok (t, rest)) :
    RunsBelow p n t := by
  have hproper := (proper_of_lexemes hlexemes).right
  obtain ⟨front, hforms, rfl, rfl⟩ := forms_of_expression hproper hread
  have hstarts (l : Lexeme) (hl : l ∈ front) : ∃ after, Starts l after :=
    hproper.left.starts hl (hforms.kinds l hl)
  refine runsBelow_spelling hn (fun l hl => ?_) (fun l hl => ?_) ?_
  · obtain ⟨after, hl⟩ := hstarts l hl
    obtain ⟨c, rest, hchars, -⟩ := hl.chars_eq
    rw [hchars]
    exact List.cons_ne_nil c rest
  · exact hmarkup.within (within_of_lexemes hlexemes l
      (List.mem_append_right _ (List.mem_append_left _ hl)))
  · refine hforms.mayFollow.imp_of_mem_imp fun l m hl hm hfollow => ?_
    obtain ⟨_, hlstarts⟩ := hstarts l hl
    obtain ⟨_, hmstarts⟩ := hstarts m hm
    exact hp hlstarts hmstarts hfollow

/-- What is read as an argument is an expression, or has a keyword in front of one. -/
theorem argument_eq_ok (hlexemes : lexemes markup = .ok (before ++ ls))
    (hread : argument ls = .ok (t, rest)) :
    expression ls = .ok (t, rest) ∨ ∃ keyword value, keyword <:+: markup ∧
      t = keyword ++ ':' :: ' ' :: value ∧ expression (ls.drop 2) = .ok (value, rest) := by
  unfold argument at hread
  split at hread
  · next hkeyword =>
    obtain ⟨⟨value, after⟩, hvalue, hread⟩ := bind_eq_ok_iff.mp hread
    cases hread
    obtain ⟨hname, hcolon⟩ := Bool.and_eq_true_iff.mp hkeyword
    match ls with
    | [] => cases hname
    | [k] => cases hcolon
    | k :: c :: more =>
      have hc := (proper_of_lexemes hlexemes).right.tail.eq_of_kind (c := ':') rfl (beq_iff_eq.mp hcolon)
      subst hc
      refine .inr ⟨k.chars, value, ?_, ?_, hvalue⟩
      · exact within_of_lexemes hlexemes k (List.mem_append_right _ List.mem_cons_self)
      · simp [current]
  · exact .inl hread

theorem mem_of_argument (hlexemes : lexemes markup = .ok (before ++ ls))
    (hread : argument ls = .ok (t, rest)) : ∀ c ∈ t, c ∈ markup ∨ c = ':' ∨ c = ' ' := by
  rcases argument_eq_ok hlexemes hread with hread | ⟨keyword, value, hkeyword, rfl, hvalue⟩
  · exact fun c hc => .inl (mem_of_expression hlexemes hread c hc)
  · rw [← List.take_append_drop 2 ls, ← List.append_assoc] at hlexemes
    refine List.forall_mem_append.mpr ⟨fun c hc => .inl (hkeyword.subset hc), ?_⟩
    refine List.forall_mem_cons.mpr ⟨.inr (.inl rfl), List.forall_mem_cons.mpr ⟨.inr (.inr rfl), ?_⟩⟩
    exact fun c hc => .inl (mem_of_expression hlexemes hvalue c hc)

theorem runsBelow_of_argument (hp : Interrupted p) (hcolon : p ':' = false) (hblank : p ' ' = false)
    (hn : 0 < n) (hmarkup : RunsBelow p n markup) (hlexemes : lexemes markup = .ok (before ++ ls))
    (hread : argument ls = .ok (t, rest)) : RunsBelow p n t := by
  rcases argument_eq_ok hlexemes hread with hread | ⟨keyword, value, hkeyword, rfl, hvalue⟩
  · exact runsBelow_of_expression hp hn hmarkup hlexemes hread
  · rw [← List.take_append_drop 2 ls, ← List.append_assoc] at hlexemes
    have hvalue := runsBelow_of_expression hp hn hmarkup hlexemes hvalue
    refine (hmarkup.within hkeyword).append ((hvalue.cons hblank).cons hcolon) fun _ _ d hd h => ?_
    cases hd
    exact absurd (h.2.symm.trans hcolon) (by decide)

end Grammar

end Stencil
