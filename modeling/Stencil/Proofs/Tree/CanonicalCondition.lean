import Stencil.Proofs.Expr.Canonical
import Stencil.Proofs.Tree.ConditionAgreement

/-!
# Conditions in their canonical form

Comparisons joined by words, written with single blanks. Both grammars read such a text as the
condition that it was written for (`Chain.readStrict_chars`, `Chain.readLax_chars`).
-/

namespace Stencil.Canonical

open Text Lexeme Grammar Fragment Stencil.Condition

/-! ## What is written -/

/-- An operator of comparisons. -/
structure Operator where
  chars : List Char
  known : chars ∈ operators

/-- A single expression, or two that are compared. -/
inductive Leaf where
  | single (e : Expression)
  | compared (left : Expression) (operator : Operator) (right : Expression)

/-- A word that joins comparisons. -/
structure Joint where
  chars : List Char
  known : chars ∈ joiningWords

/-- Comparisons and the words between them. -/
inductive Chain where
  | last (leaf : Leaf)
  | joined (leaf : Leaf) (joint : Joint) (rest : Chain)

def Operator.lexeme (o : Operator) : Lexeme := ⟨.comparison, o.chars⟩

def Joint.lexeme (j : Joint) : Lexeme := ⟨.identifier, j.chars⟩

namespace Leaf

def chars : Leaf → List Char
  | single e => e.chars
  | compared left o right => left.chars ++ ' ' :: o.chars ++ ' ' :: right.chars

def toComparison : Leaf → Comparison
  | single e => { left := e.toExpr }
  | compared left o right =>
    { left := left.toExpr, operator := some (String.ofList o.chars), right := right.toExpr }

def tokens (gap : Bool) : Leaf → List Spaced
  | single e => spread gap e.lexemes
  | compared left o right => spread gap left.lexemes ++ ⟨true, o.lexeme⟩ :: spread true right.lexemes

end Leaf

namespace Chain

def chars : Chain → List Char
  | last leaf => leaf.chars
  | joined leaf joint rest => leaf.chars ++ ' ' :: joint.chars ++ ' ' :: rest.chars

def toCondition : Chain → Condition
  | last leaf => .single leaf.toComparison
  | joined leaf joint rest => .joined leaf.toComparison (String.ofList joint.chars) rest.toCondition

def tokens (gap : Bool) : Chain → List Spaced
  | last leaf => leaf.tokens gap
  | joined leaf joint rest => leaf.tokens gap ++ ⟨true, joint.lexeme⟩ :: rest.tokens true

end Chain

/-! ## The lexemes spell the text -/

theorem Joint.plain (j : Joint) : Plain j.lexeme := by
  obtain ⟨chars, hknown⟩ := j
  simp only [joiningWords, List.mem_cons, List.not_mem_nil, or_false] at hknown
  rcases hknown with rfl | rfl <;> exact .word (by decide) (by decide) (by decide)

theorem Leaf.write_tokens (leaf : Leaf) (gap : Bool) :
    write (leaf.tokens gap) = (if gap then [' '] else []) ++ leaf.chars := by
  cases leaf <;> simp [tokens, chars, Expression.write_spread, Spaced.chars, Operator.lexeme]

theorem Chain.write_tokens (c : Chain) (gap : Bool) :
    write (c.tokens gap) = (if gap then [' '] else []) ++ c.chars := by
  induction c generalizing gap with
  | last leaf => exact leaf.write_tokens gap
  | joined leaf joint rest ih => simp [tokens, chars, Leaf.write_tokens, ih, Spaced.chars, Joint.lexeme]

theorem Leaf.plain_tokens (leaf : Leaf) (gap : Bool) : ∀ x ∈ leaf.tokens gap, Plain x.lexeme := by
  cases leaf with
  | single e => exact e.plain_spread gap
  | compared left o right =>
    exact List.forall_mem_append.mpr ⟨left.plain_spread gap, List.forall_mem_cons.mpr
      ⟨.operator o.known, right.plain_spread true⟩⟩

theorem Chain.plain_tokens (c : Chain) (gap : Bool) : ∀ x ∈ c.tokens gap, Plain x.lexeme := by
  induction c generalizing gap with
  | last leaf => exact leaf.plain_tokens gap
  | joined leaf joint rest ih =>
    exact List.forall_mem_append.mpr ⟨leaf.plain_tokens gap, List.forall_mem_cons.mpr
      ⟨joint.plain, ih true⟩⟩

/-! ## How the lexemes follow each other -/

variable {y : Spaced} {more : List Spaced}

theorem Expression.isChain_fits (e : Expression) (gap : Bool) (hrest : (y :: more).IsChain Fits)
    (hy : y.gap = true ∨ y.lexeme.kind ∈ closingKinds) :
    (spread gap e.lexemes ++ y :: more).IsChain Fits :=
  e.forms.isChain_spread hrest (fun _ _ hmeets => .inr hmeets)
    fun _ hx => hy.imp_right (meets_of_closing hx)

theorem isChain_cons_blank {x : Spaced} {ls : List Spaced} (hls : ∀ z ∈ ls.head?, z.gap = true)
    (hchain : ls.IsChain Fits) : (x :: ls).IsChain Fits :=
  List.isChain_cons.mpr ⟨fun z hz => .inl (hls z hz), hchain⟩

theorem Leaf.head_tokens (leaf : Leaf) (gap : Bool) : ∃ l rest, leaf.tokens gap = ⟨gap, l⟩ :: rest := by
  cases leaf with
  | single e => exact e.head_spread gap
  | compared left o right =>
    obtain ⟨l, rest, h⟩ := left.head_spread gap
    exact ⟨l, _, by rw [tokens, h]; rfl⟩

theorem Chain.head_tokens (c : Chain) (gap : Bool) : ∃ l rest, c.tokens gap = ⟨gap, l⟩ :: rest := by
  cases c with
  | last leaf => exact leaf.head_tokens gap
  | joined leaf joint rest =>
    obtain ⟨l, rest, h⟩ := leaf.head_tokens gap
    exact ⟨l, _, by rw [tokens, h]; rfl⟩

theorem Leaf.isChain_fits (leaf : Leaf) (gap : Bool) (hrest : (y :: more).IsChain Fits)
    (hy : y.gap = true ∨ y.lexeme.kind ∈ closingKinds) :
    (leaf.tokens gap ++ y :: more).IsChain Fits := by
  cases leaf with
  | single e => exact e.isChain_fits gap hrest hy
  | compared left o right =>
    rw [tokens, List.append_assoc]
    refine left.isChain_fits gap (isChain_cons_blank ?_ (right.isChain_fits true hrest hy)) (.inl rfl)
    obtain ⟨l, rest, h⟩ := right.head_spread true
    rw [h]
    rintro _ ⟨⟩
    rfl

theorem Chain.isChain_fits (c : Chain) (gap : Bool) :
    (c.tokens gap ++ [Spaced.ending]).IsChain Fits := by
  induction c generalizing gap with
  | last leaf => exact leaf.isChain_fits gap (.singleton _) (.inr (by decide))
  | joined leaf joint rest ih =>
    rw [tokens, List.append_assoc]
    refine leaf.isChain_fits gap (isChain_cons_blank ?_ (ih true)) (.inl rfl)
    obtain ⟨l, rest, h⟩ := rest.head_tokens true
    rw [h]
    rintro _ ⟨⟩
    rfl

theorem Chain.spelled (c : Chain) : Spelled c.chars (c.tokens false ++ [Spaced.ending]) := by
  have hwrite := c.write_tokens false
  rw [if_neg nofun, List.nil_append] at hwrite
  rw [← hwrite]
  exact spelled_write (c.plain_tokens false) (c.isChain_fits false)

/-! ## Where fragments end -/

variable {x : Lexeme} {compared : Bool}

theorem firstWord_not_joining (hx : Plain x) (hkind : x.kind ≠ .identifier) :
    firstWord x ∉ joiningWords := by
  have hhead := head_of_starts (hx.starts_blank []) hkind
  intro h
  have hfirst : ∀ word ∈ joiningWords, ∃ c rest, word = c :: rest ∧ (c = 'a' ∨ c = 'o') := by
    simp [joiningWords]
  obtain ⟨c, rest, hword, hc⟩ := hfirst _ h
  unfold firstWord at hword
  cases hchars : x.chars with
  | nil =>
    rw [hchars] at hword
    cases hword
  | cons d chars =>
    rw [hchars] at hhead
    rw [hchars, List.takeWhile_cons] at hword
    split at hword
    · obtain ⟨rfl, -⟩ := List.cons.inj hword
      obtain ⟨ha, ho⟩ := hhead d rfl
      exact hc.elim ha ho
    · cases hword

theorem Expression.firstWord_head (e : Expression) :
    ∀ l ∈ e.lexemes.head?, firstWord l ∉ joiningWords := by
  have hname (n : Name) : firstWord n.lexeme ∉ joiningWords := by
    have htake := takeWhile_run n.isWordChar_of_mem (stops_nil (p := isWordChar))
    rw [List.append_nil] at htake
    rw [firstWord, Name.lexeme, htake]
    exact fun h => n.unreserved (List.mem_cons_of_mem _ h)
  have hplain := e.plain
  cases e with
  | word w =>
    rintro _ ⟨⟩
    cases w <;> decide
  | path p =>
    rintro _ ⟨⟩
    exact hname p.root
  | integer | string | range =>
    rintro _ ⟨⟩
    exact firstWord_not_joining (hplain _ List.mem_cons_self) Kind.noConfusion

/-- Inside an expression the spacing goes on to its end. -/
theorem spacedFrom_inside {ls : List Lexeme} (hchain : (x :: ls).IsChain fun x y => ¬ NewWord x y)
    (hkinds : ∀ l ∈ ls, l.kind ∈ innerKinds)
    (hmore : spacedFrom (.behind (ls.getLastD x) true) more = true) :
    spacedFrom (.behind x true) (ls.map (⟨false, ·⟩) ++ more) = true := by
  have hinner : ∀ kind ∈ innerKinds, kind ≠ .comparison ∧ kind ≠ .ending := by decide
  induction ls generalizing x with
  | nil => exact hmore
  | cons l ls ih =>
    obtain ⟨hl, hkinds⟩ := List.forall_mem_cons.mp hkinds
    obtain ⟨hnew, hchain⟩ := List.isChain_cons_cons.mp hchain
    rw [List.getLastD_cons] at hmore
    rw [List.map_cons, List.cons_append, spacedFrom, if_neg (hinner _ hl).1, if_neg hnew,
      if_neg (hinner _ hl).2]
    exact ih hchain hkinds hmore

/-- An expression in front of what is spaced from it. -/
theorem Expression.spacedFrom_spread (e : Expression) {gap : Bool} (hgap : compared = true → gap = true)
    (hmore : ∀ last, last.kind ∈ endingKinds → spacedFrom (.behind last true) more = true) :
    spacedFrom (.operand compared) (spread gap e.lexemes ++ more) = true := by
  have hword := e.firstWord_head
  have hchain := e.forms.isChain
  have hkinds := e.forms.kinds
  have hlast := e.forms.getLast
  obtain ⟨l, ls, hls, -⟩ := e.forms.head
  rw [hls] at hword hchain hkinds hlast ⊢
  have hfree : (!compared || gap) = true := by
    cases compared with
    | false => rfl
    | true => exact hgap rfl
  have hcontains : (!joiningWords.contains (firstWord l)) = true := by simpa using hword l rfl
  rw [spread, List.cons_append, spacedFrom, hfree, hcontains]
  refine spacedFrom_inside hchain (List.forall_mem_cons.mp hkinds).2 (hmore _ (hlast _ ?_).1)
  rw [List.getLast?_cons, List.getLastD_eq_getLast?]
  rfl

theorem Leaf.spacedFrom_tokens (leaf : Leaf) (gap : Bool)
    (hmore : ∀ last, last.kind ∈ endingKinds → spacedFrom (.behind last true) more = true) :
    spacedFrom (.operand false) (leaf.tokens gap ++ more) = true := by
  cases leaf with
  | single e => exact e.spacedFrom_spread nofun hmore
  | compared left o right =>
    rw [tokens, List.append_assoc]
    refine left.spacedFrom_spread nofun fun last _ => ?_
    rw [List.cons_append, spacedFrom, if_pos (show o.lexeme.kind = .comparison from rfl)]
    exact right.spacedFrom_spread (fun _ => rfl) hmore

theorem Chain.spacedFrom_tokens (c : Chain) (gap : Bool) :
    spacedFrom (.operand false) (c.tokens gap ++ [Spaced.ending]) = true := by
  induction c generalizing gap with
  | last leaf =>
    refine leaf.spacedFrom_tokens gap fun last _ => ?_
    have hending : Spaced.ending.lexeme.kind = .ending := rfl
    rw [spacedFrom, if_neg (by simp [hending]), if_neg (by simp [NewWord, hending]), if_pos hending]
  | joined leaf joint rest ih =>
    rw [tokens, List.append_assoc]
    refine leaf.spacedFrom_tokens gap fun last hlast => ?_
    have hidentifier : joint.lexeme.kind = .identifier := rfl
    rw [List.cons_append, spacedFrom, if_neg (by simp [hidentifier]), if_pos ⟨hlast, hidentifier⟩]
    exact ih true

/-! ## The strict grammar -/

theorem Leaf.readComparison_tokens (leaf : Leaf) (gap : Bool) {l : Lexeme} {r : Rest}
    (hl : l.kind ∈ [.identifier, .ending]) :
    readComparison ((leaf.tokens gap).map (·.lexeme) ++ l :: r) = .ok (leaf.toComparison, l :: r) := by
  have hkinds : ∀ kind ∈ [Kind.identifier, .ending],
      kind ≠ .comparison ∧ kind ≠ .openSquare ∧ kind ≠ .dot := by decide
  obtain ⟨hcomparison, hstep⟩ := hkinds _ hl
  have hnext : NoStep (l :: r) := by
    rintro _ ⟨⟩
    exact hstep
  cases leaf with
  | single e =>
    rw [tokens, map_lexeme_spread]
    refine bind_eq_ok_iff.mpr ⟨_, mapError_eq_ok_iff.mpr (e.expression_lexemes hnext), bind_eq_ok_iff.mpr
      ⟨_, e.read_chars, ?_⟩⟩
    rw [take?_eq_none hcomparison]
    rfl
  | compared left o right =>
    have hbefore : NoStep (o.lexeme :: (right.lexemes ++ l :: r)) := by
      rintro _ ⟨⟩
      exact ⟨nofun, nofun⟩
    rw [tokens, List.map_append, List.map_cons, map_lexeme_spread, map_lexeme_spread, List.append_assoc]
    refine bind_eq_ok_iff.mpr ⟨_, mapError_eq_ok_iff.mpr (left.expression_lexemes hbefore),
      bind_eq_ok_iff.mpr ⟨_, left.read_chars, ?_⟩⟩
    rw [show take? .comparison _ = _ from take?_cons]
    exact bind_eq_ok_iff.mpr ⟨_, mapError_eq_ok_iff.mpr (right.expression_lexemes hnext),
      bind_eq_ok_iff.mpr ⟨_, right.read_chars, rfl⟩⟩

/-- The lexemes of a chain are read as its comparisons; there is fuel for all lexemes behind the first. -/
theorem Chain.exists_readComparisons (c : Chain) (gap : Bool) : ∃ first links rest,
    readComparison ((c.tokens gap).map (·.lexeme) ++ [Lexeme.ending]) = .ok (first, rest) ∧
      rest.length ≤ (c.tokens gap).length ∧
      (∀ fuel, rest.length < fuel → readComparisons fuel rest = .ok links) ∧
      ofLinks first links = c.toCondition := by
  have hpos (leaf : Leaf) (gap : Bool) : 0 < (leaf.tokens gap).length := by
    obtain ⟨l, rest, h⟩ := leaf.head_tokens gap
    rw [h]
    exact Nat.succ_pos _
  -- induction on the chain, which is read from its front just as it is built
  induction c generalizing gap with
  | last leaf =>
    refine ⟨leaf.toComparison, [], [Lexeme.ending], leaf.readComparison_tokens gap (by decide),
      hpos leaf gap, fun fuel hfuel => ?_, rfl⟩
    obtain ⟨fuel, rfl⟩ := Nat.exists_eq_succ_of_ne_zero (Nat.ne_of_gt (Nat.zero_lt_of_lt hfuel))
    rfl
  | joined leaf joint rest ih =>
    obtain ⟨first, links, later, hfirst, hlater, hlinks, hcondition⟩ := ih true
    let behind : Rest := joint.lexeme :: ((rest.tokens true).map (·.lexeme) ++ [Lexeme.ending])
    have hread : readComparison ((leaf.tokens gap).map (·.lexeme) ++ behind) =
        .ok (leaf.toComparison, behind) :=
      leaf.readComparison_tokens gap (show Kind.identifier ∈ _ by decide)
    refine ⟨leaf.toComparison, (String.ofList joint.chars, first) :: links, behind, ?_, ?_,
      fun fuel hfuel => ?_, ?_⟩
    · rw [tokens, List.map_append, List.map_cons, List.append_assoc]
      exact hread
    · have := hpos leaf gap
      simp only [behind, tokens, List.length_cons, List.length_append, List.length_map, List.length_nil]
      omega
    · obtain ⟨fuel, rfl⟩ := Nat.exists_eq_succ_of_ne_zero (Nat.ne_of_gt (Nat.zero_lt_of_lt hfuel))
      simp only [behind, List.length_cons, List.length_append, List.length_map, List.length_nil] at hfuel
      have hword : (word? "and" behind).or (word? "or" behind) = _ := joining_cons joint.known _
      rw [readComparisons, hword]
      exact bind_eq_ok_iff.mpr ⟨_, hfirst, bind_eq_ok_iff.mpr ⟨_, hlinks fuel (by omega), rfl⟩⟩
    · rw [ofLinks, hcondition]
      rfl

/-- **The strict grammar reads the text of a chain as the condition.** -/
theorem Chain.readStrict_chars (c : Chain) : readStrict c.chars = .ok c.toCondition := by
  obtain ⟨first, links, rest, hfirst, -, hlinks, hcondition⟩ := c.exists_readComparisons false
  have hscan := scan_eq_ok_iff.mpr ⟨_, c.spelled, rfl⟩
  rw [List.map_append, show [Spaced.ending].map (·.lexeme) = [Lexeme.ending] from rfl] at hscan
  rw [← hcondition]
  exact bind_eq_ok_iff.mpr ⟨_, mapError_eq_ok_iff.mpr (mapError_eq_ok_iff.mpr hscan), bind_eq_ok_iff.mpr
    ⟨_, hfirst, bind_eq_ok_iff.mpr ⟨_, hlinks _ (Nat.lt_succ_self _), rfl⟩⟩⟩

/-- **The tolerant grammar reads the text of a chain as the condition.** -/
theorem Chain.readLax_chars (c : Chain) (tag : String) : readLax tag c.chars = .ok c.toCondition := by
  refine readLax_of_readStrict c.readStrict_chars ?_ tag
  rw [c.spelled.spaced_eq]
  exact c.spacedFrom_tokens false

end Stencil.Canonical
