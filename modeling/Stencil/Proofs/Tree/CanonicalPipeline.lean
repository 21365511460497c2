import Stencil.Proofs.Expr.Canonical
import Stencil.Proofs.Tree.OutputAgreement

/-!
# Pipelines in their canonical form

An expression and filters, each with its arguments, written with single blanks. Both grammars read such
a text as the pipeline that it was written for (`Pipeline.readStrict_chars`, `Pipeline.readLax_chars`).
-/

namespace Stencil.Canonical

open Text Lexeme Grammar

/-! ## What is written -/

/-- An argument of a filter. -/
inductive Argument where
  | positional (e : Expression)
  | keyword (name : Name) (e : Expression)

/-- A filter and its arguments. -/
structure Filter where
  name : Name
  arguments : List Argument := []

/-- An expression and the filters its value goes through. -/
structure Pipeline where
  expr : Expression
  filters : List Filter := []

namespace Argument

def chars : Argument → List Char
  | positional e => e.chars
  | keyword name e => name.chars ++ ':' :: ' ' :: e.chars

/-- What the argument stands for, if it has no keyword. -/
def position? : Argument → Option Expr
  | positional e => some e.toExpr
  | keyword .. => none

/-- Keyword and meaning of the argument, if it has a keyword. -/
def keyword? : Argument → Option (String × Expr)
  | positional _ => none
  | keyword name e => some (name.text, e.toExpr)

def tokens : Argument → List Spaced
  | positional e => spread true e.lexemes
  | keyword name e => ⟨true, name.lexeme⟩ :: ⟨false, colon⟩ :: spread true e.lexemes

/-- Arguments with what stands in front of each: a separator for the first one, and commas. -/
def listTokens : Lexeme → List Argument → List Spaced
  | _, [] => []
  | sep, a :: rest => ⟨false, sep⟩ :: (a.tokens ++ listTokens comma rest)

end Argument

namespace Filter

def chars (f : Filter) : List Char :=
  f.name.chars ++
    if f.arguments.isEmpty then []
    else ':' :: ' ' :: [',', ' '].intercalate (f.arguments.map Argument.chars)

def toCall (f : Filter) : FilterCall where
  name := f.name.text
  args := f.arguments.filterMap Argument.position?
  kwargs := f.arguments.filterMap Argument.keyword?

def tokens (f : Filter) : List Spaced :=
  ⟨true, pipe⟩ :: ⟨true, f.name.lexeme⟩ :: Argument.listTokens colon f.arguments

end Filter

namespace Pipeline

def chars (p : Pipeline) : List Char :=
  [' ', '|', ' '].intercalate (p.expr.chars :: p.filters.map Filter.chars)

def toPipeline (p : Pipeline) : Stencil.Pipeline where
  expr := p.expr.toExpr
  filters := p.filters.map Filter.toCall

def tokens (p : Pipeline) : List Spaced :=
  spread false p.expr.lexemes ++ p.filters.flatMap Filter.tokens

end Pipeline

/-! ## The lexemes spell the text -/

theorem Argument.write_tokens (a : Argument) : write a.tokens = ' ' :: a.chars := by
  cases a <;>
    simp [tokens, Expression.write_spread, Spaced.chars, Name.lexeme, chars, colon]

theorem Argument.write_listTokens (sep : Lexeme) (a : Argument) (rest : List Argument) :
    write (listTokens sep (a :: rest)) =
      sep.chars ++ ' ' :: [',', ' '].intercalate ((a :: rest).map chars) := by
  induction rest generalizing sep a with
  | nil => simp [listTokens, write_tokens, Spaced.chars]
  | cons b rest ih =>
    rw [listTokens, write_cons, write_append, write_tokens, ih]
    simp [Spaced.chars, comma, List.intercalate_cons_cons]

theorem Filter.write_tokens (f : Filter) : write f.tokens = [' ', '|', ' '] ++ f.chars := by
  rw [tokens, chars]
  cases f.arguments with
  | nil => simp [Argument.listTokens, Spaced.chars, pipe, Name.lexeme]
  | cons a rest =>
    rw [write_cons, write_cons, Argument.write_listTokens]
    simp [Spaced.chars, pipe, colon, Name.lexeme]

theorem Pipeline.write_tokens (p : Pipeline) : write p.tokens = p.chars := by
  have hfilters (front : List Char) (filters : List Filter) :
      front ++ write (filters.flatMap Filter.tokens) =
        [' ', '|', ' '].intercalate (front :: filters.map Filter.chars) := by
    induction filters generalizing front with
    | nil => simp
    | cons f filters ih =>
      rw [List.flatMap_cons, write_append, f.write_tokens, List.map_cons, List.intercalate_cons_cons,
        ← ih]
      simp
  rw [tokens, write_append, Expression.write_spread]
  exact hfilters _ _

theorem Argument.plain_tokens (a : Argument) : ∀ x ∈ a.tokens, Plain x.lexeme := by
  cases a with
  | positional e => exact e.plain_spread true
  | keyword name e =>
    exact List.forall_mem_cons.mpr ⟨name.plain, List.forall_mem_cons.mpr
      ⟨.single rfl (by decide), e.plain_spread true⟩⟩

theorem Argument.plain_listTokens {sep : Lexeme} (hsep : Plain sep) (arguments : List Argument) :
    ∀ x ∈ listTokens sep arguments, Plain x.lexeme := by
  induction arguments generalizing sep with
  | nil => exact nofun
  | cons a rest ih =>
    exact List.forall_mem_cons.mpr ⟨hsep, List.forall_mem_append.mpr
      ⟨a.plain_tokens, ih (.single rfl (by decide))⟩⟩

theorem Filter.plain_tokens (f : Filter) : ∀ x ∈ f.tokens, Plain x.lexeme :=
  List.forall_mem_cons.mpr ⟨.single rfl (by decide), List.forall_mem_cons.mpr
    ⟨f.name.plain, Argument.plain_listTokens (.single rfl (by decide)) f.arguments⟩⟩

theorem Pipeline.plain_tokens (p : Pipeline) : ∀ x ∈ p.tokens, Plain x.lexeme := by
  refine List.forall_mem_append.mpr ⟨p.expr.plain_spread false, fun x hx => ?_⟩
  obtain ⟨f, -, hx⟩ := List.mem_flatMap.mp hx
  exact f.plain_tokens x hx

/-! ## How the lexemes follow each other -/

/-- A lexeme is told apart from the one in front of it, in both grammars. -/
structure Follows (x y : Spaced) : Prop where
  fits : Fits x y
  apart : Stencil.Pipeline.Apart x y

/-- The kinds of lexemes that stand behind the expressions of a pipeline. -/
def laterKinds : List Kind := [.pipe, .comma, .ending]

/-- What stands behind an expression of a pipeline. -/
structure Closes (y : Spaced) : Prop where
  kind : y.lexeme.kind ∈ laterKinds
  fits : y.gap = true ∨ y.lexeme.kind ∈ closingKinds

variable {y : Spaced} {rest : List Spaced}

theorem Expression.isChain_follows (e : Expression) (gap : Bool) (hrest : (y :: rest).IsChain Follows)
    (hy : Closes y) : (spread gap e.lexemes ++ y :: rest).IsChain Follows := by
  have hinner : ∀ kind ∈ innerKinds, kind ≠ .pipe ∧ kind ≠ .colon := by decide
  have hending : ∀ kind ∈ endingKinds, kind ≠ .pipe := by decide
  have hseparates : ∀ kind ∈ laterKinds,
      kind ∈ Stencil.Pipeline.separatorKinds ∧ kind ≠ .colon := by decide
  refine e.forms.isChain_spread hrest (fun hx hz hmeets => ?_) fun x hx => ?_
  · exact ⟨.inr hmeets, fun _ _ => rfl, fun h => absurd h (hinner _ hx).1,
      fun h => absurd h (hinner _ hz).2⟩
  · obtain ⟨hseparator, hcolon⟩ := hseparates _ hy.kind
    exact ⟨hy.fits.imp_right (meets_of_closing hx), fun _ h => absurd hseparator h,
      fun h => absurd h (hending _ hx), fun h => absurd h hcolon⟩

theorem Name.follows (n : Name) (gap : Bool) (hy : y.lexeme.kind ∈ Stencil.Pipeline.separatorKinds)
    (hfits : y.gap = true ∨ y.lexeme.kind ∈ closingKinds) : Follows ⟨gap, n.lexeme⟩ y :=
  ⟨hfits.imp_right (meets_of_closing (show Kind.identifier ∈ _ by decide)), fun _ h => absurd hy h, nofun,
    fun _ => n.isWordChar_of_mem⟩

/-- A separator in front of what stands behind a blank. -/
theorem follows_blank {sep l : Lexeme} (hsep : sep.kind ∈ [.colon, .comma]) (hl : l.kind ∈ startingKinds)
    (gap : Bool) : Follows ⟨gap, sep⟩ ⟨true, l⟩ := by
  have hseparates : ∀ kind ∈ [Kind.colon, .comma],
      kind ∈ Stencil.Pipeline.separatorKinds ∧ kind ≠ .pipe := by decide
  have hstarts : ∀ kind ∈ startingKinds, kind ≠ .colon := by decide
  exact ⟨.inl rfl, fun h => absurd (hseparates _ hsep).1 h, fun h => absurd h (hseparates _ hsep).2,
    fun h => absurd h (hstarts _ hl)⟩

theorem Expression.isChain_separator (e : Expression) {sep : Lexeme} (hsep : sep.kind ∈ [.colon, .comma])
    (hrest : (y :: rest).IsChain Follows) (hy : Closes y) :
    (⟨false, sep⟩ :: (spread true e.lexemes ++ y :: rest)).IsChain Follows := by
  have hchain := e.isChain_follows true hrest hy
  obtain ⟨l, more, hls, hl⟩ := e.forms.head
  rw [hls] at hchain ⊢
  exact List.isChain_cons_cons.mpr ⟨follows_blank hsep hl false, hchain⟩

theorem Argument.isChain_separator (a : Argument) {sep : Lexeme} (hsep : sep.kind ∈ [.colon, .comma])
    (hrest : (y :: rest).IsChain Follows) (hy : Closes y) :
    (⟨false, sep⟩ :: (a.tokens ++ y :: rest)).IsChain Follows := by
  cases a with
  | positional e => exact e.isChain_separator hsep hrest hy
  | keyword name e =>
    have hname : Kind.identifier ∈ startingKinds := by decide
    exact List.isChain_cons_cons.mpr ⟨follows_blank hsep hname false, List.isChain_cons_cons.mpr
      ⟨name.follows true (by decide) (.inr (by decide)), e.isChain_separator (by decide) hrest hy⟩⟩

theorem Argument.isChain_listTokens {sep : Lexeme} (hsep : sep.kind ∈ [.colon, .comma])
    (arguments : List Argument) (hrest : (y :: rest).IsChain Follows) (hy : Closes y) :
    (listTokens sep arguments ++ y :: rest).IsChain Follows := by
  induction arguments generalizing sep with
  | nil => exact hrest
  | cons a arguments ih =>
    have hlater := @ih comma (by decide)
    rw [listTokens, List.cons_append, List.append_assoc]
    cases arguments with
    | nil => exact a.isChain_separator hsep hrest hy
    | cons b arguments => exact a.isChain_separator hsep hlater ⟨by decide, .inr (by decide)⟩

theorem Filter.isChain_tokens (f : Filter) (hrest : (y :: rest).IsChain Follows) (hy : Closes y) :
    (f.tokens ++ y :: rest).IsChain Follows := by
  have hseparates : ∀ kind ∈ laterKinds, kind ∈ Stencil.Pipeline.separatorKinds := by
    decide
  have hcolon : colon.kind ∈ [.colon, .comma] := by decide
  have hlist := Argument.isChain_listTokens hcolon f.arguments hrest hy
  obtain ⟨name, arguments⟩ := f
  refine List.isChain_cons_cons.mpr ⟨⟨.inl rfl, fun h => absurd (show Kind.pipe ∈ _ by decide) h,
    fun _ => name.isWordChar_of_mem, nofun⟩, List.isChain_cons.mpr ⟨fun z hz => ?_, hlist⟩⟩
  cases arguments with
  | nil =>
    cases hz
    exact name.follows true (hseparates _ hy.kind) hy.fits
  | cons a arguments =>
    cases hz
    exact name.follows true (by decide) (.inr (by decide))

theorem Pipeline.isChain_tokens (p : Pipeline) : (p.tokens ++ [Spaced.ending]).IsChain Follows := by
  have hfilters (filters : List Filter) : ∃ y rest,
      filters.flatMap Filter.tokens ++ [Spaced.ending] = y :: rest ∧
        (y :: rest).IsChain Follows ∧ Closes y := by
    induction filters with
    | nil => exact ⟨_, _, rfl, .singleton _, by decide, .inr (by decide)⟩
    | cons f filters ih =>
      obtain ⟨y, rest, htokens, hrest, hy⟩ := ih
      have hchain := f.isChain_tokens hrest hy
      rw [← htokens, ← List.append_assoc] at hchain
      exact ⟨_, _, rfl, hchain, by decide, .inl rfl⟩
  obtain ⟨y, rest, htokens, hrest, hy⟩ := hfilters p.filters
  rw [tokens, List.append_assoc, htokens]
  exact p.expr.isChain_follows false hrest hy

theorem Pipeline.spelled (p : Pipeline) : Spelled p.chars (p.tokens ++ [Spaced.ending]) := by
  rw [← p.write_tokens]
  exact spelled_write p.plain_tokens (p.isChain_tokens.imp fun _ _ h => h.fits)

/-! ## What the arguments stand for -/

theorem Argument.addArgument_chars (a : Argument) (call : FilterCall) :
    call.addArgument a.chars = .ok { call with
      args := call.args ++ a.position?.toList
      kwargs := call.kwargs ++ a.keyword?.toList } := by
  cases a with
  | positional e =>
    have htrim : trim e.chars = e.chars := e.operand.runs.trim_eq fun _ => Fragment.isBlank_of_isPlain
    rw [chars, FilterCall.addArgument, htrim, Fragment.wholeAttribute?_operand e.operand]
    refine bind_eq_ok_iff.mpr ⟨_, e.read_chars, ?_⟩
    simp [position?, keyword?]
    rfl
  | keyword name e =>
    have hattribute := Fragment.wholeAttribute?_keyword name.isWordChar_of_mem (List.cons_ne_nil _ _)
      isGap_nil
      (isGap_cons.mpr ⟨by decide, isGap_nil⟩ : IsGap [' ']) e.operand
    rw [List.nil_append, List.singleton_append] at hattribute
    rw [chars, FilterCall.addArgument, hattribute]
    refine bind_eq_ok_iff.mpr ⟨_, e.read_chars, ?_⟩
    simp [position?, keyword?]
    rfl

theorem Filter.ofArguments_chars (f : Filter) :
    FilterCall.ofArguments f.name.chars (f.arguments.map Argument.chars) = .ok f.toCall := by
  have hfold (arguments : List Argument) (call : FilterCall) :
      (arguments.map Argument.chars).foldlM FilterCall.addArgument call = .ok { call with
        args := call.args ++ arguments.filterMap Argument.position?
        kwargs := call.kwargs ++ arguments.filterMap Argument.keyword? } := by
    induction arguments generalizing call with
    | nil => simp; rfl
    | cons a arguments ih =>
      rw [List.map_cons, List.foldlM_cons]
      refine bind_eq_ok_iff.mpr ⟨_, a.addArgument_chars call, ?_⟩
      rw [ih]
      cases a <;> simp [List.filterMap_cons, Argument.position?, Argument.keyword?]
  rw [FilterCall.ofArguments, hfold]
  rfl

/-! ## The strict grammar -/

variable {l : Lexeme} {r : Rest}

theorem noStep_of_later (hl : l.kind ∈ laterKinds) : NoStep (l :: r) := by
  have hkinds : ∀ kind ∈ laterKinds, kind ≠ .openSquare ∧ kind ≠ .dot := by decide
  rintro _ ⟨⟩
  exact hkinds _ hl

theorem Argument.argument_tokens (a : Argument) (hl : l.kind ∈ laterKinds) :
    Grammar.argument (a.tokens.map (·.lexeme) ++ l :: r) = .ok (a.chars, l :: r) := by
  cases a with
  | positional e =>
    have hcolon : looksAt .colon 1 (e.lexemes ++ l :: r) = false := by
      have hinner : ∀ kind ∈ innerKinds, kind ≠ .colon := by decide
      have hlater : ∀ kind ∈ laterKinds, kind ≠ .colon := by decide
      obtain ⟨first, more, hlexemes, -⟩ := e.forms.head
      have hkinds := e.forms.kinds
      rw [hlexemes] at hkinds ⊢
      cases more with
      | nil => simpa [looksAt] using hlater _ hl
      | cons second more => simpa [looksAt] using hinner _ (hkinds second (by simp))
    rw [tokens, map_lexeme_spread, Grammar.argument, hcolon, Bool.and_false]
    exact e.expression_lexemes (noStep_of_later hl)
  | keyword name e =>
    rw [tokens, List.map_cons, List.map_cons, map_lexeme_spread]
    refine bind_eq_ok_iff.mpr ⟨_, e.expression_lexemes (noStep_of_later hl), ?_⟩
    simp [chars, current, colon, Name.lexeme]
    rfl

/-- Behind an argument stand a comma and further arguments, or what stands behind all of them. -/
theorem Argument.exists_later (arguments : List Argument) (hl : l.kind ∈ laterKinds) :
    ∃ m more, (listTokens comma arguments).map (·.lexeme) ++ l :: r = m :: more ∧
      m.kind ∈ laterKinds := by
  cases arguments with
  | nil => exact ⟨l, r, rfl, hl⟩
  | cons a rest => exact ⟨comma, _, rfl, by decide⟩

theorem Argument.length_le_listTokens (sep : Lexeme) (arguments : List Argument) :
    arguments.length ≤ (listTokens sep arguments).length := by
  induction arguments generalizing sep with
  | nil => exact Nat.zero_le _
  | cons a rest ih =>
    have := ih comma
    simp only [listTokens, List.length_cons, List.length_append]
    omega

/-- Further arguments, each behind a comma. -/
theorem Argument.readArguments_listTokens (arguments : List Argument) (hl : l.kind ∈ [.pipe, .ending])
    {fuel : Nat} (hfuel : arguments.length ≤ fuel) :
    Stencil.Pipeline.readArguments fuel ((listTokens comma arguments).map (·.lexeme) ++ l :: r) =
      .ok (arguments.map chars, l :: r) := by
  have hkinds : ∀ kind ∈ [Kind.pipe, .ending], kind ≠ .comma ∧ kind ∈ laterKinds := by decide
  -- induction on the arguments, each of which takes one unit of fuel
  induction arguments generalizing fuel with
  | nil =>
    cases fuel with
    | zero => rfl
    | succ fuel =>
      rw [listTokens, List.map_nil, List.nil_append, Stencil.Pipeline.readArguments,
        take?_eq_none (hkinds _ hl).1]
      rfl
  | cons a rest ih =>
    obtain ⟨fuel, rfl⟩ := Nat.exists_eq_succ_of_ne_zero (Nat.ne_of_gt (Nat.zero_lt_of_lt hfuel))
    obtain ⟨m, more, hlater, hm⟩ := exists_later rest (hkinds _ hl).2 (r := r)
    have hfirst := a.argument_tokens hm (r := more)
    rw [← hlater] at hfirst
    rw [listTokens, List.map_cons, List.map_append, List.cons_append, List.append_assoc,
      Stencil.Pipeline.readArguments, show take? .comma _ = _ from take?_cons]
    exact bind_eq_ok_iff.mpr ⟨_, mapError_eq_ok_iff.mpr hfirst, bind_eq_ok_iff.mpr
      ⟨_, ih (Nat.le_of_succ_le_succ hfuel), rfl⟩⟩

theorem Argument.readArgumentList_listTokens (arguments : List Argument)
    (hl : l.kind ∈ [.pipe, .ending]) :
    Stencil.Pipeline.readArgumentList ((listTokens colon arguments).map (·.lexeme) ++ l :: r) =
      .ok (arguments.map chars, l :: r) := by
  have hkinds : ∀ kind ∈ [Kind.pipe, .ending], kind ≠ .colon ∧ kind ∈ laterKinds := by decide
  cases arguments with
  | nil =>
    rw [listTokens, List.map_nil, List.nil_append, Stencil.Pipeline.readArgumentList,
      take?_eq_none (hkinds _ hl).1]
    rfl
  | cons a rest =>
    obtain ⟨m, more, hlater, hm⟩ := exists_later rest (hkinds _ hl).2 (r := r)
    have hfirst := a.argument_tokens hm (r := more)
    rw [← hlater] at hfirst
    have hfuel : rest.length ≤ ((listTokens comma rest).map (·.lexeme) ++ l :: r).length := by
      have := length_le_listTokens comma rest
      simp only [List.length_append, List.length_map]
      omega
    rw [listTokens, List.map_cons, List.map_append, List.cons_append, List.append_assoc,
      Stencil.Pipeline.readArgumentList, show take? .colon _ = _ from take?_cons]
    exact bind_eq_ok_iff.mpr ⟨_, mapError_eq_ok_iff.mpr hfirst, bind_eq_ok_iff.mpr
      ⟨_, readArguments_listTokens rest hl hfuel, rfl⟩⟩

theorem Filter.readFilters_tokens (filters : List Filter) {fuel : Nat} (hfuel : filters.length ≤ fuel) :
    Stencil.Pipeline.readFilters fuel ((filters.flatMap tokens).map (·.lexeme) ++ [Lexeme.ending]) =
      .ok (filters.map toCall, [Lexeme.ending]) := by
  -- induction on the filters; what follows one starts with a bar or is the ending
  induction filters generalizing fuel with
  | nil => cases fuel <;> rfl
  | cons f filters ih =>
    obtain ⟨fuel, rfl⟩ := Nat.exists_eq_succ_of_ne_zero (Nat.ne_of_gt (Nat.zero_lt_of_lt hfuel))
    have hlater : ∃ m more, (filters.flatMap tokens).map (·.lexeme) ++ [Lexeme.ending] = m :: more ∧
        m.kind ∈ [.pipe, .ending] := by
      cases filters with
      | nil => exact ⟨_, _, rfl, by decide⟩
      | cons f filters => exact ⟨pipe, _, rfl, by decide⟩
    obtain ⟨m, more, hmore, hm⟩ := hlater
    have hlist := Argument.readArgumentList_listTokens f.arguments hm (r := more)
    rw [← hmore] at hlist
    rw [List.flatMap_cons, tokens, List.map_append, List.map_cons, List.map_cons, List.cons_append,
      List.cons_append, List.cons_append, List.cons_append, List.append_assoc, Stencil.Pipeline.readFilters,
      show take? .pipe _ = _ from take?_cons]
    exact bind_eq_ok_iff.mpr ⟨_, mapError_eq_ok_iff.mpr (take_cons f.name.lexeme _), bind_eq_ok_iff.mpr
      ⟨_, hlist, bind_eq_ok_iff.mpr ⟨_, f.ofArguments_chars, bind_eq_ok_iff.mpr
        ⟨_, ih (Nat.le_of_succ_le_succ hfuel), rfl⟩⟩⟩⟩

/-- **The strict grammar reads the text of a pipeline as the pipeline.** -/
theorem Pipeline.readStrict_chars (p : Pipeline) :
    Stencil.Pipeline.readStrict p.chars = .ok p.toPipeline := by
  have hscan := scan_eq_ok_iff.mpr ⟨_, p.spelled, rfl⟩
  rw [tokens, List.map_append, List.map_append, map_lexeme_spread, List.append_assoc,
    show [Spaced.ending].map (·.lexeme) = [Lexeme.ending] from rfl] at hscan
  have hending : ¬ (currentKind (p.expr.lexemes ++ ((p.filters.flatMap Filter.tokens).map (·.lexeme) ++
      [Lexeme.ending])) == .ending) = true := by
    have hstarts : ∀ kind ∈ startingKinds, kind ≠ .ending := by decide
    obtain ⟨first, more, hlexemes, hfirst⟩ := p.expr.forms.head
    rw [hlexemes]
    simpa [currentKind, current] using hstarts _ hfirst
  have hstep : NoStep ((p.filters.flatMap Filter.tokens).map (·.lexeme) ++ [Lexeme.ending]) := by
    cases p.filters with
    | nil => exact noStep_of_later (by decide)
    | cons f filters => exact noStep_of_later (l := pipe) (by decide)
  have hfuel : p.filters.length ≤
      ((p.filters.flatMap Filter.tokens).map (·.lexeme) ++ [Lexeme.ending]).length := by
    have hlength (filters : List Filter) : filters.length ≤ (filters.flatMap Filter.tokens).length := by
      induction filters with
      | nil => exact Nat.le_refl _
      | cons f filters ih =>
        simp only [List.flatMap_cons, Filter.tokens, List.length_append, List.length_cons]
        omega
    have := hlength p.filters
    simp only [List.length_append, List.length_map]
    omega
  refine bind_eq_ok_iff.mpr ⟨_, mapError_eq_ok_iff.mpr (mapError_eq_ok_iff.mpr hscan), ?_⟩
  rw [if_neg hending]
  have hexpr := p.expr.expression_lexemes hstep
  have hfilters := Filter.readFilters_tokens p.filters hfuel
  exact bind_eq_ok_iff.mpr ⟨_, mapError_eq_ok_iff.mpr hexpr, bind_eq_ok_iff.mpr ⟨_, p.expr.read_chars,
    bind_eq_ok_iff.mpr ⟨_, hfilters, rfl⟩⟩⟩

/-- **The tolerant grammar reads the text of a pipeline as the pipeline.** -/
theorem Pipeline.readLax_chars (p : Pipeline) : Stencil.Pipeline.readLax p.chars = .ok p.toPipeline := by
  refine Stencil.Pipeline.readLax_of_readStrict p.readStrict_chars ?_
  rw [p.spelled.spaced_eq]
  exact p.isChain_tokens.imp fun _ _ h => h.apart

example : Stencil.Pipeline.readLax "'a|b' | join: ', ', of: x".toList = .ok
    { expr := .value (.str "a|b")
      filters := [{
        name := "join"
        args := [.value (.str ", ")]
        kwargs := [("of", .lookup (.value (.str "x")) [])] }] } := by rfl

end Stencil.Canonical
