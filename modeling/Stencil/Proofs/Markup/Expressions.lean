import Stencil.Markup.Grammar
import Stencil.Proofs.Fallible
import Stencil.Proofs.Markup.Spelling

/-!
# The strict grammar of expressions

* `Forms phrase ls`: the lexemes form an expression, or the steps of a path.
* `forms_of_expression`: what the grammar reads off the front of a markup forms an expression, and the
  text it gives is what that is spelled with, without the blanks.
* `expression_of_forms`: every expression is read, if no further step follows it.
-/

namespace Stencil

namespace Lexeme

/-! ## Lexemes of one character -/

def openSquare : Lexeme := ⟨.openSquare, ['[']⟩

def closeSquare : Lexeme := ⟨.closeSquare, [']']⟩

def openRound : Lexeme := ⟨.openRound, ['(']⟩

def closeRound : Lexeme := ⟨.closeRound, [')']⟩

def dot : Lexeme := ⟨.dot, ['.']⟩

def dots : Lexeme := ⟨.dotdot, ['.', '.']⟩

def colon : Lexeme := ⟨.colon, [':']⟩

def comma : Lexeme := ⟨.comma, [',']⟩

def pipe : Lexeme := ⟨.pipe, ['|']⟩

theorem Kind.ofChar?_inj {c d : Char} {kind : Kind} (hc : ofChar? c = some kind)
    (hd : ofChar? d = some kind) : c = d := by
  unfold ofChar? at hc hd
  split at hc <;> cases hc <;> split at hd <;> first | rfl | cases hd

/-- A lexeme of a kind that belongs to a character is that character. -/
theorem Starts.eq_of_kind {l : Lexeme} {after : List Char} {c : Char} {kind : Kind}
    (hstarts : Starts l after) (hc : Kind.ofChar? c = some kind) (hkind : l.kind = kind) :
    l = ⟨kind, [c]⟩ := by
  subst hkind
  cases hstarts with
  | single hother hdot hdash => rw [Kind.ofChar?_inj hother hc]
  | comparison | string | whole | decimal | identifier | asked | dotdot =>
    exact absurd rfl (Kind.ne_of_ofChar? hc (by dsimp only; decide))

theorem Starts.eq_dots {l : Lexeme} {after : List Char} (hstarts : Starts l after)
    (hkind : l.kind = .dotdot) : l = dots := by
  cases hstarts with
  | dotdot => rfl
  | single hchar => exact absurd hkind (Kind.ne_of_ofChar? hchar (by decide))
  | comparison | string | whole | decimal | identifier | asked => cases hkind

/-- The characters of lexemes, without blanks between them. -/
def spelling (ls : List Lexeme) : List Char := ls.flatMap (·.chars)

@[simp] theorem spelling_nil : spelling [] = [] := rfl

@[simp] theorem spelling_cons (l : Lexeme) (ls : List Lexeme) :
    spelling (l :: ls) = l.chars ++ spelling ls := rfl

@[simp] theorem spelling_append (ls ms : List Lexeme) :
    spelling (ls ++ ms) = spelling ls ++ spelling ms := List.flatMap_append

theorem Spelled.forall_starts {s : List Char} {ls : List Spaced} (hspelled : Spelled s ls) :
    ∀ x ∈ ls, x.lexeme = Lexeme.ending ∨ ∃ after, Starts x.lexeme after := by
  induction hspelled with
  | ending hgap => exact fun x hx => .inl (by rw [List.mem_singleton.mp hx])
  | lexeme hgap hstarts hafter ih => exact List.forall_mem_cons.mpr ⟨.inr ⟨_, hstarts⟩, ih⟩

end Lexeme

namespace Grammar

open Lexeme

/-- What lexemes may form. -/
inductive Phrase where
  | expression
  /-- The steps of a path. -/
  | steps

/-- The lexemes form a phrase. -/
inductive Forms : Phrase → List Lexeme → Prop where
  | literal {l : Lexeme} (hkind : l.kind = .string ∨ l.kind = .number) : Forms .expression [l]
  | named {l : Lexeme} {steps : List Lexeme} (hkind : l.kind = .identifier)
    (hsteps : Forms .steps steps) : Forms .expression (l :: steps)
  /-- A variable whose name is the value of an expression. -/
  | bracketed {inner steps : List Lexeme} (hinner : Forms .expression inner)
    (hsteps : Forms .steps steps) : Forms .expression (openSquare :: inner ++ closeSquare :: steps)
  | range {first last : List Lexeme} (hfirst : Forms .expression first)
    (hlast : Forms .expression last) :
    Forms .expression (openRound :: first ++ dots :: last ++ [closeRound])
  | done : Forms .steps []
  | index {inner steps : List Lexeme} (hinner : Forms .expression inner)
    (hsteps : Forms .steps steps) : Forms .steps (openSquare :: inner ++ closeSquare :: steps)
  | name {l : Lexeme} {steps : List Lexeme} (hkind : l.kind = .identifier)
    (hsteps : Forms .steps steps) : Forms .steps (dot :: l :: steps)

/-! ## What is read is an expression -/

/-- The lexemes have the characters of their kinds. -/
def Proper (ls : List Lexeme) : Prop := ∀ l ∈ ls, l = ending ∨ ∃ after, Starts l after

theorem Proper.tail {l : Lexeme} {ls : List Lexeme} (h : Proper (l :: ls)) : Proper ls :=
  fun l hl => h l (List.mem_cons_of_mem _ hl)

theorem Proper.right {ls ms : List Lexeme} (h : Proper (ls ++ ms)) : Proper ms :=
  fun l hl => h l (List.mem_append_right _ hl)

theorem Proper.left {ls ms : List Lexeme} (h : Proper (ls ++ ms)) : Proper ls :=
  fun l hl => h l (List.mem_append_left _ hl)

theorem proper_of_lexemes {markup : List Char} {ls : List Lexeme} (h : lexemes markup = .ok ls) :
    Proper ls := by
  obtain ⟨spelled, hspelled, rfl⟩ := scan_eq_ok_iff.mp (mapError_eq_ok_iff.mp h)
  exact List.forall_mem_map.mpr hspelled.forall_starts

/-- A lexeme that is taken is the one of its character. -/
theorem take_eq_ok {kind : Lexeme.Kind} {ls rest : Rest} {chars : List Char}
    (htake : take kind ls = .ok (chars, rest)) (hkind : kind ≠ .ending) :
    ∃ l, ls = l :: rest ∧ l.kind = kind ∧ l.chars = chars := by
  unfold take currentKind at htake
  split at htake
  · next hcurrent =>
    cases ls with
    | nil => exact absurd (beq_iff_eq.mp hcurrent).symm hkind
    | cons l ls =>
      cases htake
      exact ⟨l, rfl, beq_iff_eq.mp hcurrent, rfl⟩
  · cases htake

theorem currentKind_of_take {kind : Lexeme.Kind} {ls : Rest} {found : List Char × Rest}
    (htake : take kind ls = .ok found) : currentKind ls = kind := by
  unfold take at htake
  split at htake
  · next hkind => exact beq_iff_eq.mp hkind
  · cases htake

theorem take?_eq_some {kind : Lexeme.Kind} {ls : Rest} {found : List Char × Rest}
    (htake : take? kind ls = some found) :
    currentKind ls = kind ∧ found = ((current ls).chars, ls.tail) := by
  unfold take? at htake
  split at htake
  · next hkind =>
    cases htake
    exact ⟨beq_iff_eq.mp hkind, rfl⟩
  · cases htake

theorem word?_eq_some {word : String} {ls : Rest} {found : List Char × Rest}
    (h : word? word ls = some found) :
    current ls = ⟨.identifier, word.toList⟩ ∧ found = (word.toList, ls.tail) := by
  unfold word? at h
  split at h
  · next hcurrent =>
    cases h
    exact ⟨beq_iff_eq.mp hcurrent, rfl⟩
  · cases h

theorem Proper.eq_of_kind {l : Lexeme} {ls : List Lexeme} {c : Char} {kind : Lexeme.Kind}
    (h : Proper (l :: ls)) (hc : Kind.ofChar? c = some kind) (hkind : l.kind = kind) :
    l = ⟨kind, [c]⟩ := by
  rcases h l List.mem_cons_self with rfl | ⟨after, hstarts⟩
  · exact absurd hkind.symm (Kind.ne_of_ofChar? hc (by decide))
  · exact hstarts.eq_of_kind hc hkind

theorem Proper.eq_dots {l : Lexeme} {ls : List Lexeme} (h : Proper (l :: ls))
    (hkind : l.kind = .dotdot) : l = dots := by
  rcases h l List.mem_cons_self with rfl | ⟨after, hstarts⟩
  · cases hkind
  · exact hstarts.eq_dots hkind

/-- The reader of a phrase. -/
def reader : Phrase → Nat → Rest → Reading
  | .expression => expressionWithin
  | .steps => lookupsWithin

/-- With this fuel, what is read as a phrase is one, and the text is what it is spelled with. -/
def Sound (fuel : Nat) : Prop :=
  ∀ (phrase : Phrase) {ls rest : Rest} {t : List Char}, Proper ls →
    reader phrase fuel ls = .ok (t, rest) →
      ∃ front, Forms phrase front ∧ ls = front ++ rest ∧ t = spelling front

namespace Sound

variable {fuel : Nat} {l : Lexeme} {ls rest : Rest} {t : List Char}

/-- An expression in brackets and the steps behind it, for both readers. -/
theorem brackets (hsound : Sound fuel) (hproper : Proper (l :: ls)) (hkind : l.kind = .openSquare)
    (hread : (do
      let (inner, rest) ← expressionWithin fuel ls
      let (close, rest) ← take .closeSquare rest
      let (path, rest) ← lookupsWithin fuel rest
      return (l.chars ++ inner ++ close ++ path, rest)) = Except.ok (t, rest)) :
    ∃ inner steps, Forms .expression inner ∧ Forms .steps steps ∧
      l :: ls = openSquare :: inner ++ closeSquare :: steps ++ rest ∧
      t = spelling (openSquare :: inner ++ closeSquare :: steps) := by
  obtain ⟨⟨inner, afterInner⟩, hinner, hread⟩ := bind_eq_ok_iff.mp hread
  obtain ⟨⟨close, afterClose⟩, hclose, hread⟩ := bind_eq_ok_iff.mp hread
  obtain ⟨⟨path, afterPath⟩, hpath, hread⟩ := bind_eq_ok_iff.mp hread
  cases hread
  obtain ⟨front, hfront, rfl, rfl⟩ := hsound .expression hproper.tail hinner
  obtain ⟨c, rfl, hc, rfl⟩ := take_eq_ok hclose (by decide)
  have hafter := hproper.tail.right
  obtain ⟨steps, hsteps, rfl, rfl⟩ := hsound .steps hafter.tail hpath
  have hl := hproper.eq_of_kind (c := '[') rfl hkind
  have hc := hafter.eq_of_kind (c := ']') rfl hc
  subst hl hc
  exact ⟨front, steps, hfront, hsteps, by simp [openSquare, closeSquare],
    by simp [openSquare, closeSquare]⟩

theorem range (hsound : Sound fuel) (hproper : Proper (l :: ls)) (hkind : l.kind = .openRound)
    (hread : (do
      let (first, rest) ← expressionWithin fuel ls
      let (_, rest) ← take .dotdot rest
      let (last, rest) ← expressionWithin fuel rest
      let (_, rest) ← take .closeRound rest
      return ('(' :: first ++ '.' :: '.' :: last ++ [')'], rest)) = Except.ok (t, rest)) :
    ∃ front, Forms .expression front ∧ l :: ls = front ++ rest ∧ t = spelling front := by
  obtain ⟨⟨first, afterFirst⟩, hfirst, hread⟩ := bind_eq_ok_iff.mp hread
  obtain ⟨⟨_, afterDots⟩, hdots, hread⟩ := bind_eq_ok_iff.mp hread
  obtain ⟨⟨last, afterLast⟩, hlast, hread⟩ := bind_eq_ok_iff.mp hread
  obtain ⟨⟨_, afterClose⟩, hclose, hread⟩ := bind_eq_ok_iff.mp hread
  cases hread
  obtain ⟨front, hfront, rfl, rfl⟩ := hsound .expression hproper.tail hfirst
  obtain ⟨d, rfl, hd, -⟩ := take_eq_ok hdots (by decide)
  have hafter := hproper.tail.right
  obtain ⟨back, hback, rfl, rfl⟩ := hsound .expression hafter.tail hlast
  obtain ⟨c, rfl, hc, -⟩ := take_eq_ok hclose (by decide)
  have hl := hproper.eq_of_kind (c := '(') rfl hkind
  have hc := hafter.tail.right.eq_of_kind (c := ')') rfl hc
  have hd := hafter.eq_dots hd
  subst hl hc hd
  exact ⟨_, .range hfront hback, by simp [openRound, closeRound, dots],
    by simp [openRound, closeRound, dots]⟩

theorem expression (hsound : Sound fuel) (hproper : Proper (l :: ls))
    (hread : expressionWithin (fuel + 1) (l :: ls) = .ok (t, rest)) :
    ∃ front, Forms .expression front ∧ l :: ls = front ++ rest ∧ t = spelling front := by
  rw [expressionWithin] at hread
  dsimp only at hread
  split at hread
  · next hkind =>
    obtain ⟨⟨path, afterPath⟩, hpath, hread⟩ := bind_eq_ok_iff.mp hread
    cases hread
    obtain ⟨steps, hsteps, rfl, rfl⟩ := hsound .steps hproper.tail hpath
    exact ⟨l :: steps, .named hkind hsteps, rfl, rfl⟩
  · next hkind =>
    obtain ⟨inner, steps, hinner, hsteps, hls, ht⟩ := hsound.brackets hproper hkind hread
    exact ⟨_, .bracketed hinner hsteps, hls, ht⟩
  · next hkind =>
    cases hread
    exact ⟨[l], .literal (.inl hkind), rfl, by simp⟩
  · next hkind =>
    cases hread
    exact ⟨[l], .literal (.inr hkind), rfl, by simp⟩
  · next hkind => exact hsound.range hproper hkind hread
  · cases hread

theorem steps (hsound : Sound fuel) (hproper : Proper (l :: ls))
    (hread : lookupsWithin (fuel + 1) (l :: ls) = .ok (t, rest)) :
    ∃ front, Forms .steps front ∧ l :: ls = front ++ rest ∧ t = spelling front := by
  rw [lookupsWithin] at hread
  dsimp only at hread
  split at hread
  · next hkind =>
    obtain ⟨inner, steps, hinner, hsteps, hls, ht⟩ := hsound.brackets hproper hkind hread
    exact ⟨_, .index hinner hsteps, hls, ht⟩
  · next hkind =>
    obtain ⟨⟨name, afterName⟩, hname, hread⟩ := bind_eq_ok_iff.mp hread
    obtain ⟨⟨path, afterPath⟩, hpath, hread⟩ := bind_eq_ok_iff.mp hread
    cases hread
    obtain ⟨n, rfl, hn, rfl⟩ := take_eq_ok hname (by decide)
    obtain ⟨steps, hsteps, rfl, rfl⟩ := hsound .steps hproper.tail.tail hpath
    have hl := hproper.eq_of_kind (c := '.') rfl hkind
    subst hl
    exact ⟨_, .name hn hsteps, rfl, by simp [dot]⟩
  · cases hread
    exact ⟨[], .done, rfl, rfl⟩

end Sound

/-- Both readers are sound. -/
theorem sound (fuel : Nat) : Sound fuel := by
  -- with a unit of fuel less, each reader calls itself and the other
  induction fuel with
  | zero =>
    intro phrase ls rest t _ hread
    cases phrase with
    | expression =>
      rw [reader, expressionWithin] at hread
      cases hread
    | steps =>
      rw [reader, lookupsWithin] at hread
      cases hread
      exact ⟨[], .done, rfl, rfl⟩
  | succ fuel ih =>
    intro phrase ls rest t hproper hread
    cases phrase with
    | expression =>
      cases ls with
      | nil =>
        rw [reader, expressionWithin] at hread
        cases hread
      | cons l ls => exact ih.expression hproper hread
    | steps =>
      cases ls with
      | nil =>
        rw [reader, lookupsWithin] at hread
        cases hread
        exact ⟨[], .done, rfl, rfl⟩
      | cons l ls => exact ih.steps hproper hread

/-- **What is read as an expression is one**, and the text is what it is spelled with. -/
theorem forms_of_expression {ls rest : Rest} {t : List Char} (hproper : Proper ls)
    (hread : expression ls = .ok (t, rest)) :
    ∃ front, Forms .expression front ∧ ls = front ++ rest ∧ t = spelling front :=
  sound _ .expression hproper hread

/-! ## Every expression is read -/

/-- No step of a path stands in front. -/
def NoStep (ls : Rest) : Prop := ∀ l ∈ ls.head?, l.kind ≠ .openSquare ∧ l.kind ≠ .dot

theorem noStep_cons {l : Lexeme} (hsquare : l.kind ≠ .openSquare) (hdot : l.kind ≠ .dot) (ls : Rest) :
    NoStep (l :: ls) := by
  rintro _ ⟨⟩
  exact ⟨hsquare, hdot⟩

theorem take_cons (l : Lexeme) (ls : Rest) : take l.kind (l :: ls) = .ok (l.chars, ls) :=
  if_pos (beq_self_eq_true _)

theorem take?_cons {l : Lexeme} {ls : Rest} : take? l.kind (l :: ls) = some (l.chars, ls) :=
  if_pos (beq_self_eq_true _)

theorem take?_eq_none {kind : Lexeme.Kind} {l : Lexeme} {ls : Rest} (hl : l.kind ≠ kind) :
    take? kind (l :: ls) = none :=
  if_neg (show ¬ (l.kind == kind) = true by simpa using hl)

/-- Brackets and what follows them, for both readers. -/
theorem read_brackets {fuel : Nat} {inner steps : List Lexeme} {rest : Rest}
    (hinner : reader .expression fuel (inner ++ (closeSquare :: (steps ++ rest))) =
      .ok (spelling inner, closeSquare :: (steps ++ rest)))
    (hsteps : reader .steps fuel (steps ++ rest) = .ok (spelling steps, rest)) :
    (do
      let (inner, rest) ← expressionWithin fuel (inner ++ (closeSquare :: (steps ++ rest)))
      let (close, rest) ← take .closeSquare rest
      let (path, rest) ← lookupsWithin fuel rest
      return (openSquare.chars ++ inner ++ close ++ path, rest)) =
        Except.ok (spelling (openSquare :: inner ++ closeSquare :: steps), rest) := by
  refine bind_eq_ok_iff.mpr ⟨_, hinner, bind_eq_ok_iff.mpr ⟨_, take_cons closeSquare _,
    bind_eq_ok_iff.mpr ⟨_, hsteps, ?_⟩⟩⟩
  simp [openSquare, closeSquare]
  rfl

theorem reader_of_forms {phrase : Phrase} {front : List Lexeme} (hforms : Forms phrase front)
    {rest : Rest} (hrest : NoStep rest) {fuel : Nat} (hfuel : front.length ≤ fuel) :
    reader phrase fuel (front ++ rest) = .ok (spelling front, rest) := by
  have hclose := noStep_cons (l := closeSquare) (by decide) (by decide)
  -- induction on how the lexemes form the phrase; the closing lexeme of each pair is no step
  induction hforms generalizing rest fuel with
  | @literal l hkind =>
    obtain ⟨fuel, rfl⟩ := Nat.exists_eq_succ_of_ne_zero (Nat.ne_of_gt hfuel)
    rw [reader, List.singleton_append, expressionWithin]
    rcases hkind with hkind | hkind <;> rw [hkind] <;> simp
  | @named l steps hkind hsteps ih =>
    rw [List.length_cons] at hfuel
    obtain ⟨fuel, rfl⟩ := Nat.exists_eq_succ_of_ne_zero (Nat.ne_of_gt (Nat.zero_lt_of_lt hfuel))
    rw [reader, List.cons_append, expressionWithin]
    dsimp only
    rw [hkind]
    exact bind_eq_ok_iff.mpr ⟨_, ih hrest (Nat.le_of_succ_le_succ hfuel), rfl⟩
  | @bracketed inner steps hinner hsteps ihinner ihsteps =>
    simp only [List.length_append, List.length_cons] at hfuel
    obtain ⟨fuel, rfl⟩ := Nat.exists_eq_succ_of_ne_zero (show fuel ≠ 0 by omega)
    rw [reader, List.append_assoc, List.cons_append, List.cons_append, expressionWithin]
    exact read_brackets (ihinner (hclose _) (by omega)) (ihsteps hrest (by omega))
  | @range first last hfirst hlast ihfirst ihlast =>
    simp only [List.length_append, List.length_cons, List.length_nil] at hfuel
    obtain ⟨fuel, rfl⟩ := Nat.exists_eq_succ_of_ne_zero (show fuel ≠ 0 by omega)
    have hfirst := ihfirst (noStep_cons (l := dots) (by decide) (by decide) (last ++ closeRound :: rest))
      (show first.length ≤ fuel by omega)
    have hlast := ihlast (noStep_cons (l := closeRound) (by decide) (by decide) rest)
      (show last.length ≤ fuel by omega)
    have hls : openRound :: first ++ dots :: last ++ [closeRound] ++ rest =
        openRound :: (first ++ dots :: (last ++ closeRound :: rest)) := by simp
    rw [reader, hls, expressionWithin]
    refine bind_eq_ok_iff.mpr ⟨_, hfirst, bind_eq_ok_iff.mpr ⟨_, take_cons dots _,
      bind_eq_ok_iff.mpr ⟨_, hlast, bind_eq_ok_iff.mpr ⟨_, take_cons closeRound _, ?_⟩⟩⟩⟩
    simp [openRound, dots, closeRound]
    rfl
  | done =>
    rw [reader, List.nil_append]
    cases fuel with
    | zero => rfl
    | succ fuel =>
      cases rest with
      | nil => rfl
      | cons l rest =>
        obtain ⟨hopen, hdot⟩ := hrest l rfl
        rw [lookupsWithin]
        dsimp only
        split
        · next hkind => exact absurd hkind hopen
        · next hkind => exact absurd hkind hdot
        · rfl
  | @index inner steps hinner hsteps ihinner ihsteps =>
    simp only [List.length_append, List.length_cons] at hfuel
    obtain ⟨fuel, rfl⟩ := Nat.exists_eq_succ_of_ne_zero (show fuel ≠ 0 by omega)
    rw [reader, List.append_assoc, List.cons_append, List.cons_append, lookupsWithin]
    exact read_brackets (ihinner (hclose _) (by omega)) (ihsteps hrest (by omega))
  | @name l steps hkind hsteps ih =>
    simp only [List.length_cons] at hfuel
    obtain ⟨fuel, rfl⟩ := Nat.exists_eq_succ_of_ne_zero (show fuel ≠ 0 by omega)
    have hname : take .identifier (l :: (steps ++ rest)) = .ok (l.chars, steps ++ rest) :=
      hkind ▸ take_cons l _
    rw [reader, List.cons_append, List.cons_append, lookupsWithin]
    exact bind_eq_ok_iff.mpr ⟨_, hname, bind_eq_ok_iff.mpr ⟨_, ih hrest (by omega), rfl⟩⟩

/-- **Every expression is read**, if no further step follows it. -/
theorem expression_of_forms {front : List Lexeme} {rest : Rest} (hforms : Forms .expression front)
    (hrest : NoStep rest) : expression (front ++ rest) = .ok (spelling front, rest) :=
  reader_of_forms hforms hrest (by rw [List.length_append]; omega)

/-! ## What expressions start and end with -/

/-- The kinds of lexemes that an expression starts with. -/
def startingKinds : List Lexeme.Kind := [.string, .number, .identifier, .openSquare, .openRound]

/-- The kinds of lexemes that an expression ends with. -/
def endingKinds : List Lexeme.Kind := [.string, .number, .identifier, .closeSquare, .closeRound]

theorem Forms.head {ls : List Lexeme} (hforms : Forms .expression ls) :
    ∃ l rest, ls = l :: rest ∧ l.kind ∈ startingKinds := by
  cases hforms with
  | literal hkind => exact ⟨_, _, rfl, by rcases hkind with h | h <;> rw [h] <;> decide⟩
  | named hkind hsteps => exact ⟨_, _, rfl, by rw [hkind]; decide⟩
  | bracketed hinner hsteps => exact ⟨_, _, rfl, by decide⟩
  | range hfirst hlast => exact ⟨_, _, rfl, by decide⟩

/-- The last lexeme of a phrase, which is a string only when the phrase is nothing else. -/
theorem Forms.getLast {phrase : Phrase} {ls : List Lexeme} (hforms : Forms phrase ls) :
    ∀ l ∈ ls.getLast?, l.kind ∈ endingKinds ∧
      (l.kind = .string → phrase = .expression ∧ ls = [l]) := by
  have hsteps {phrase : Phrase} {steps : List Lexeme} {c : Lexeme} (front : List Lexeme)
      (hc : c.kind ∈ endingKinds ∧ c.kind ≠ .string)
      (hsteps : ∀ l ∈ steps.getLast?, l.kind ∈ endingKinds ∧
        (l.kind = .string → Phrase.steps = .expression ∧ steps = [l])) :
      ∀ l ∈ (front ++ c :: steps).getLast?, l.kind ∈ endingKinds ∧
        (l.kind = .string → phrase = .expression ∧ front ++ c :: steps = [l]) := by
    intro l hl
    rw [List.getLast?_append_of_ne_nil _ (List.cons_ne_nil _ _), List.getLast?_cons] at hl
    cases hlast : steps.getLast? with
    | none =>
      rw [hlast] at hl
      cases hl
      exact ⟨hc.1, fun h => absurd h hc.2⟩
    | some d =>
      rw [hlast] at hl
      cases hl
      exact ⟨(hsteps d hlast).1, fun h => nomatch ((hsteps d hlast).2 h).1⟩
  induction hforms with
  | literal hkind =>
    rintro _ ⟨⟩
    exact ⟨by rcases hkind with h | h <;> simp [h, endingKinds], fun _ => ⟨rfl, rfl⟩⟩
  | named hkind _ ih => exact hsteps [] (by rw [hkind]; decide) ih
  | bracketed _ _ _ ih | index _ _ _ ih => exact hsteps _ (by decide) ih
  | range _ _ _ _ =>
    rw [List.getLast?_concat]
    rintro _ ⟨⟩
    exact ⟨by decide, nofun⟩
  | done => exact fun _ hl => nomatch hl
  | @name l steps hkind _ ih => exact hsteps [dot] (by rw [hkind]; decide) ih

end Grammar

end Stencil
