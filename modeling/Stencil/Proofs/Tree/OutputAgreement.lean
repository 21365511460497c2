import Stencil.Proofs.Markup.Layout
import Stencil.Proofs.Markup.Stretches

/-!
# Pipelines in both grammars

A pipeline that the strict grammar reads is read likewise by the tolerant one, if no blanks stand
inside its expressions and the names of its filters and keywords are plain words (`Apart`).
-/

namespace Stencil

open Text Fragment Lexeme Grammar

/-! ## Spaced lexemes -/

namespace Lexeme

variable {s : List Char} {y : Spaced} {rest : List Spaced}

/-- The blanks in front may be taken off. -/
theorem Spelled.drop_gap (hspelled : Spelled s (y :: rest)) :
    ∃ gap after, s = gap ++ after ∧ IsGap gap ∧ Stops isBlank after ∧
      Spelled after (⟨false, y.lexeme⟩ :: rest) := by
  cases hspelled with
  | ending hgap => exact ⟨s, [], by simp, hgap, stops_nil, .ending isGap_nil⟩
  | lexeme hgap hstarts hafter =>
    exact ⟨_, _, rfl, hgap, hstarts.stops_isBlank _, .cons hstarts hafter⟩

/-- Behind something complete stands a comma, a bar or nothing. -/
theorem Spelled.ended (hspelled : Spelled s (y :: rest))
    (hy : y.lexeme.kind ∈ [.ending, .pipe, .comma]) : Ended s := by
  cases hspelled with
  | ending hgap => simpa using Ended.of_gap hgap (s := []) fun _ hc => nomatch hc
  | @lexeme gap after l ls hgap hstarts hafter =>
    have hl : l = pipe ∨ l = comma := by
      simp only [List.mem_cons, List.not_mem_nil, or_false] at hy
      rcases hy with h | h | h
      · exact absurd h hstarts.ne_ending
      · exact .inl (hstarts.eq_of_kind rfl h)
      · exact .inr (hstarts.eq_of_kind rfl h)
    refine .of_gap hgap ?_
    rcases hl with rfl | rfl <;> rintro _ ⟨⟩ <;> simp

end Lexeme

namespace Pipeline

/-- The kinds of lexemes between the expressions of a pipeline. -/
def separatorKinds : List Lexeme.Kind := [.pipe, .colon, .comma, .ending]

/-- How lexemes of a pipeline follow each other: no blanks stand inside an expression, and what stands
behind a bar or in front of a colon is a plain word. -/
structure Apart (x y : Spaced) : Prop where
  inside : x.lexeme.kind ∉ separatorKinds → y.lexeme.kind ∉ separatorKinds → y.gap = false
  name : x.lexeme.kind = .pipe → ∀ c ∈ y.lexeme.chars, isWordChar c = true
  keyword : y.lexeme.kind = .colon → ∀ c ∈ x.lexeme.chars, isWordChar c = true

instance (x y : Spaced) : Decidable (Apart x y) :=
  decidable_of_iff
    ((x.lexeme.kind ∉ separatorKinds → y.lexeme.kind ∉ separatorKinds → y.gap = false) ∧
      (x.lexeme.kind = .pipe → ∀ c ∈ y.lexeme.chars, isWordChar c = true) ∧
      (y.lexeme.kind = .colon → ∀ c ∈ x.lexeme.chars, isWordChar c = true))
    ⟨fun ⟨h₁, h₂, h₃⟩ => ⟨h₁, h₂, h₃⟩, fun ⟨h₁, h₂, h₃⟩ => ⟨h₁, h₂, h₃⟩⟩

variable {s : List Char} {ls : List Spaced} {rest : Rest}

theorem Apart.tight {front : List Spaced} (hchain : front.IsChain Apart)
    (hforms : Forms .expression (front.map (·.lexeme))) : Tight front := by
  have hinner : ∀ kind ∈ innerKinds, kind ∉ separatorKinds := by decide
  exact hforms.tight hchain fun hx hy _ h => h.inside (hinner _ hx) (hinner _ hy)

/-- Blanks in front of the first lexeme do not matter. -/
theorem Apart.isChain_drop_gap {y : Spaced} {gap : Bool} (hchain : (y :: ls).IsChain Apart) :
    (⟨gap, y.lexeme⟩ :: ls).IsChain Apart := by
  obtain ⟨hhead, hchain⟩ := List.isChain_cons.mp hchain
  exact List.isChain_cons.mpr ⟨fun z hz => ⟨(hhead z hz).inside, (hhead z hz).name, (hhead z hz).keyword⟩,
    hchain⟩

/-! ## Arguments -/

/-- Both texts add the same argument to every call. -/
def SameArgument (x y : List Char) : Prop :=
  ∀ call : FilterCall, call.addArgument x = call.addArgument y

theorem ofArguments_congr {name : List Char} {xs ys : List (List Char)}
    (h : List.Forall₂ SameArgument xs ys) :
    FilterCall.ofArguments name xs = FilterCall.ofArguments name ys := by
  unfold FilterCall.ofArguments
  generalize ({ name := String.ofList name } : FilterCall) = call
  induction h generalizing call with
  | nil => rfl
  | cons hxy _ ih =>
    rw [List.foldlM_cons, List.foldlM_cons, hxy call]
    exact congrArg _ (funext ih)

/-- The text is an argument of the tolerant grammar. -/
structure IsArgument (a : List Char) : Prop where
  pieces : Pieces isFree a
  starts : ∀ tail, Stops isBlank (a ++ tail)
  found : ∀ tail, Ended tail → argument? (a ++ tail) = some (a, tail)

theorem isArgument_of_operand {t : List Char} (ht : Operand t) : IsArgument t :=
  ⟨ht.runs.mono fun _ => isFree_of_isPlain, ht.stops_isBlank, fun _ => argument?_operand ht⟩

/-- A keyword argument, whatever blanks stand around its colon. -/
theorem isArgument_of_keyword {word gap gap' t : List Char} (hword : ∀ c ∈ word, isWordChar c = true)
    (hne : word ≠ []) (hgap : IsGap gap) (hgap' : IsGap gap') (ht : Operand t) :
    IsArgument (word ++ (gap ++ ':' :: (gap' ++ t))) := by
  have hfree {gap : List Char} (hgap : IsGap gap) : Pieces isFree gap :=
    .of_forall fun c hc => isFree_of_isBlank (hgap c hc)
  have hname : Pieces isFree word := .of_forall fun c hc =>
    isFree_of_isPlain (isPlain_of_isSolid (isSolid_of_isNameChar (by simp [isNameChar, hword c hc])))
  refine ⟨hname.append ((hfree hgap).append (.char (by decide) ((hfree hgap').append
    (isArgument_of_operand ht).pieces))), fun tail => ?_,
    fun tail => argument?_keyword hword hne hgap hgap' ht⟩
  obtain ⟨c, word, rfl⟩ := List.exists_cons_of_ne_nil hne
  exact stops_cons.mpr (isBlank_of_isWordChar (hword c List.mem_cons_self))

theorem sameArgument_of_keyword {word gap gap' t : List Char} (hword : ∀ c ∈ word, isWordChar c = true)
    (hne : word ≠ []) (hgap : IsGap gap) (hgap' : IsGap gap') (ht : Operand t) :
    SameArgument (word ++ ':' :: ' ' :: t) (word ++ (gap ++ ':' :: (gap' ++ t))) := by
  intro call
  have hleft := wholeAttribute?_keyword hword hne isGap_nil (isGap_cons.mpr ⟨by decide, isGap_nil⟩ :
    IsGap [' ']) ht
  have hright := wholeAttribute?_keyword hword hne hgap hgap' ht
  rw [List.nil_append, List.singleton_append] at hleft
  rw [FilterCall.addArgument, FilterCall.addArgument, hleft, hright]

/-- An argument of the strict grammar stands in the text as one of the tolerant grammar. -/
theorem exists_argument {x : List Char} (hspelled : Spelled s ls) (hchain : ls.IsChain Apart)
    (hread : Grammar.argument (ls.map (·.lexeme)) = .ok (x, rest)) :
    ∃ gap a after back, s = gap ++ (a ++ after) ∧ IsGap gap ∧ IsArgument a ∧ SameArgument x a ∧
      Spelled after back ∧ back.map (·.lexeme) = rest ∧ back.IsChain Apart := by
  unfold Grammar.argument at hread
  split at hread
  · next hkeyword =>
    obtain ⟨hname, hcolon⟩ := Bool.and_eq_true_iff.mp hkeyword
    obtain ⟨k, c, ls, rfl, hk, hc⟩ := exists_of_looksAt hname hcolon
    obtain ⟨⟨value, after⟩, hvalue, hread⟩ := bind_eq_ok_iff.mp hread
    cases hread
    obtain ⟨hhead, hchain⟩ := List.isChain_cons.mp hchain
    have hword := (hhead c rfl).keyword hc
    obtain ⟨gap, s₁, rfl, hgap, -, hstartsK, hspelled⟩ := exists_lexeme hspelled hk (by decide)
    obtain ⟨gap₁, s₂, rfl, hgap₁, -, hstartsC, hspelled⟩ := exists_lexeme hspelled hc (by decide)
    obtain ⟨front, back, rfl, rfl, hforms, -, hoperand, hsplit⟩ := exists_operand hspelled hvalue
    obtain ⟨hfront, hback, -⟩ := List.isChain_append.mp (List.isChain_cons.mp hchain).2
    obtain ⟨gap₂, s₃, rfl, hgap₂, -, hspelled⟩ := hsplit (Apart.tight hfront hforms)
    obtain ⟨d, chars, hchars, -⟩ := hstartsK.chars_eq
    have hne : k.lexeme.chars ≠ [] := by rw [hchars]; nofun
    have hcolon : c.lexeme.chars = [':'] := by rw [hstartsC.eq_of_kind (c := ':') rfl hc]
    have hx : (current ((k :: c :: (front ++ back)).map (·.lexeme))).chars ++
        (current ((k :: c :: (front ++ back)).map (·.lexeme)).tail).chars ++ ' ' :: value =
          k.lexeme.chars ++ ':' :: ' ' :: value := by
      show k.lexeme.chars ++ c.lexeme.chars ++ ' ' :: value = _
      rw [hcolon]
      simp
    rw [hx]
    refine ⟨gap, k.lexeme.chars ++ (gap₁ ++ ':' :: (gap₂ ++ value)), s₃, back, ?_, hgap,
      isArgument_of_keyword hword hne hgap₁ hgap₂ hoperand,
      sameArgument_of_keyword hword hne hgap₁ hgap₂ hoperand, hspelled, rfl, hback⟩
    rw [hcolon]
    simp
  · obtain ⟨front, back, rfl, rfl, hforms, -, hoperand, hsplit⟩ := exists_operand hspelled hread
    obtain ⟨hfront, hback, -⟩ := List.isChain_append.mp hchain
    obtain ⟨gap, after, rfl, hgap, -, hspelled⟩ := hsplit (Apart.tight hfront hforms)
    exact ⟨gap, x, after, back, rfl, hgap, isArgument_of_operand hoperand, fun _ => rfl, hspelled, rfl,
      hback⟩

/-- The text starts with arguments that are the same as these, and goes on with the bar or the end
that the lexemes start with. -/
structure Supplies (s : List Char) (xs : List (List Char)) (rest : Rest) (t after : List Char)
    (arguments : List (List Char)) (back : List Spaced) : Prop where
  text : s = t ++ after
  pieces : Pieces isFree t
  finds : Finds t arguments
  same : List.Forall₂ SameArgument xs arguments
  spelled : Spelled after back
  lexemes : back.map (·.lexeme) = rest
  chain : back.IsChain Apart
  tight : ∀ y ∈ back.head?, y.gap = false

theorem pieces_of_isGap {gap : List Char} (hgap : IsGap gap) : Pieces isFree gap :=
  .of_forall fun c hc => isFree_of_isBlank (hgap c hc)

theorem supplies_nil (hspelled : Spelled s ls) (hchain : ls.IsChain Apart) :
    ∃ gap after back, IsGap gap ∧ Supplies s [] (ls.map (·.lexeme)) gap after [] back := by
  cases ls with
  | nil => cases hspelled
  | cons y ls =>
    obtain ⟨gap, after, rfl, hgap, -, hspelled⟩ := hspelled.drop_gap
    refine ⟨gap, after, _, hgap, rfl, pieces_of_isGap hgap, ?_, .nil, hspelled, rfl,
      Apart.isChain_drop_gap hchain, ?_⟩
    · simpa using finds_nil.after_gap hgap
    · rintro _ ⟨⟩
      rfl

theorem Supplies.argument {sep : Char} {gap gap' a x t after : List Char} {xs arguments : List (List Char)}
    {back : List Spaced} (h : Supplies s xs rest t after arguments back) (hsep : sep = ':' ∨ sep = ',')
    (hgap : IsGap gap) (hgap' : IsGap gap') (ha : IsArgument a) (hsame : SameArgument x a)
    (hended : Ended t) :
    Supplies (gap ++ sep :: (gap' ++ (a ++ s))) (x :: xs) rest (gap ++ sep :: (gap' ++ (a ++ t))) after
      (a :: arguments) back := by
  have hfree : isFree sep = true := by rcases hsep with rfl | rfl <;> decide
  refine ⟨?_, ?_, ?_, .cons hsame h.same, h.spelled, h.lexemes, h.chain, h.tight⟩
  · rw [h.text]
    simp
  · exact (pieces_of_isGap hgap).append (.char hfree ((pieces_of_isGap hgap').append
      (ha.pieces.append h.pieces)))
  · exact (Finds.argument hsep hgap' (ha.starts t) (ha.found t hended) h.finds).after_gap hgap

/-- The arguments behind the first one, and what may stand in front of them. -/
theorem exists_supplies {fuel : Nat} {xs : List (List Char)} (hspelled : Spelled s ls)
    (hchain : ls.IsChain Apart) (hread : readArguments fuel (ls.map (·.lexeme)) = .ok (xs, rest))
    (hrest : currentKind rest ∈ [.ending, .pipe]) :
    Ended s ∧ ∃ t after arguments back, Ended t ∧ Supplies s xs rest t after arguments back := by
  have hdone {s : List Char} {ls : List Spaced} (hspelled : Spelled s ls) (hchain : ls.IsChain Apart)
      (hrest : currentKind (ls.map (·.lexeme)) ∈ [.ending, .pipe]) :
      Ended s ∧ ∃ t after arguments back, Ended t ∧
        Supplies s [] (ls.map (·.lexeme)) t after arguments back := by
    obtain ⟨gap, after, back, hgap, h⟩ := supplies_nil hspelled hchain
    refine ⟨?_, gap, after, [], back, ?_, h⟩
    · cases ls with
      | nil => cases hspelled
      | cons y ls =>
        have hkinds : ∀ kind ∈ [Lexeme.Kind.ending, .pipe], kind ∈ [Lexeme.Kind.ending, .pipe, .comma] := by
          decide
        exact hspelled.ended (hkinds _ hrest)
    · simpa using Ended.of_gap hgap (s := []) fun _ hc => nomatch hc
  induction fuel generalizing s ls xs with
  | zero =>
    cases hread
    exact hdone hspelled hchain hrest
  | succ fuel ih =>
    rw [readArguments] at hread
    split at hread
    · cases hread
      exact hdone hspelled hchain hrest
    · next htake =>
      obtain ⟨y, ls, rfl, hy, heq⟩ := exists_of_take? htake (by decide)
      cases heq
      obtain ⟨⟨x, afterX⟩, hx, hread⟩ := bind_eq_ok_iff.mp hread
      obtain ⟨⟨more, afterMore⟩, hmore, hread⟩ := bind_eq_ok_iff.mp hread
      cases hread
      have hended := hspelled.ended (by rw [hy]; decide)
      obtain ⟨gap, s₁, rfl, hgap, -, hstarts, hspelled⟩ := exists_lexeme hspelled hy (by decide)
      obtain ⟨gap', a, s₂, back, rfl, hgap', ha, hsame, hspelled, rfl, hchain⟩ :=
        exists_argument hspelled (List.isChain_cons.mp hchain).2 (mapError_eq_ok_iff.mp hx)
      obtain ⟨-, t, after, arguments, back', hendedT, h⟩ := ih hspelled hchain hmore
      have hsupplies := h.argument (.inr rfl) hgap hgap' ha hsame hendedT
      have hcommaChars : y.lexeme.chars = [','] := by rw [hstarts.eq_of_kind (c := ',') rfl hy]
      rw [hcommaChars] at hended ⊢
      refine ⟨hended, _, after, _, back', ?_, hsupplies⟩
      exact .of_gap hgap fun c hc => .inl (Option.some.inj hc).symm

theorem exists_supplies_list {xs : List (List Char)} (hspelled : Spelled s ls)
    (hchain : ls.IsChain Apart) (hread : readArgumentList (ls.map (·.lexeme)) = .ok (xs, rest))
    (hrest : currentKind rest ∈ [.ending, .pipe]) :
    ∃ t after arguments back, Supplies s xs rest t after arguments back := by
  unfold readArgumentList at hread
  split at hread
  · cases hread
    obtain ⟨gap, after, back, hgap, h⟩ := supplies_nil hspelled hchain
    exact ⟨gap, after, [], back, h⟩
  · next htake =>
    obtain ⟨y, ls, rfl, hy, heq⟩ := exists_of_take? htake (by decide)
    cases heq
    obtain ⟨⟨x, afterX⟩, hx, hread⟩ := bind_eq_ok_iff.mp hread
    obtain ⟨⟨more, afterMore⟩, hmore, hread⟩ := bind_eq_ok_iff.mp hread
    cases hread
    obtain ⟨gap, s₁, rfl, hgap, -, hstarts, hspelled⟩ := exists_lexeme hspelled hy (by decide)
    obtain ⟨gap', a, s₂, back, rfl, hgap', ha, hsame, hspelled, rfl, hchain⟩ :=
      exists_argument hspelled (List.isChain_cons.mp hchain).2 (mapError_eq_ok_iff.mp hx)
    obtain ⟨-, t, after, arguments, back', hended, h⟩ := exists_supplies hspelled hchain hmore hrest
    have hcolonChars : y.lexeme.chars = [':'] := by rw [hstarts.eq_of_kind (c := ':') rfl hy]
    rw [hcolonChars]
    exact ⟨_, after, _, back', h.argument (.inl rfl) hgap hgap' ha hsame hended⟩

/-! ## Filters -/

theorem kind_of_readFilters {fuel : Nat} {ls rest : Rest} {filters : List FilterCall}
    (hread : readFilters fuel ls = .ok (filters, rest)) (hrest : currentKind rest = .ending) :
    currentKind ls ∈ [.ending, .pipe] := by
  cases fuel with
  | zero =>
    cases hread
    rw [hrest]
    decide
  | succ fuel =>
    rw [readFilters] at hread
    split at hread
    · cases hread
      rw [hrest]
      decide
    · next htake =>
      rw [(take?_eq_some htake).1]
      decide

/-- What stands behind a bar is cut into stretches that hold these filters. -/
def Holds (s : List Char) (filters : List FilterCall) : Prop :=
  ∃ parts, Cuts s parts ∧ readStretches parts = .ok filters

/-- A filter in front of further ones, or of nothing. -/
theorem Holds.filter {gap name t after : List Char} {arguments : List (List Char)} {call : FilterCall}
    {filters : List FilterCall} (hgap : IsGap gap) (hname : ∀ c ∈ name, isWordChar c = true)
    (hne : name ≠ []) (hpieces : Pieces isFree t) (hstops : Stops isWordChar t)
    (hfinds : Finds t arguments) (hcall : FilterCall.ofArguments name arguments = .ok call)
    (hafter : after = [] ∧ filters = [] ∨ ∃ more, after = '|' :: more ∧ Holds more filters) :
    Holds (gap ++ (name ++ t) ++ after) (call :: filters) := by
  have hfree : Pieces isFree name := .of_forall fun c hc =>
    isFree_of_isPlain (isPlain_of_isSolid (isSolid_of_isNameChar (by simp [isNameChar, hname c hc])))
  have hstretch : Pieces isFree (gap ++ (name ++ t)) :=
    (pieces_of_isGap hgap).append (hfree.append hpieces)
  have hnonempty : gap ++ (name ++ t) ≠ [] := by simp [hne]
  have harguments : Fragment.arguments (gap ++ (name ++ t)) = arguments := by
    have hskip : ∀ c ∈ name, c ≠ ':' ∧ c ≠ ',' := by
      intro c hc
      have := hname c hc
      constructor <;> rintro rfl <;> exact absurd this (by decide)
    exact ((hfinds.skip hskip).after_gap hgap) _ (Nat.le_refl _)
  have hreads {parts : List (List Char)} (h : readStretches parts = .ok filters) :
      readStretches ((gap ++ (name ++ t)) :: parts) = .ok (call :: filters) := by
    rw [readStretches, firstWord?_append hgap hname hne hstops, harguments]
    exact bind_eq_ok_iff.mpr ⟨call, hcall, bind_eq_ok_iff.mpr ⟨filters, h, rfl⟩⟩
  rcases hafter with ⟨rfl, rfl⟩ | ⟨more, rfl, parts, hcuts, hparts⟩
  · rw [List.append_nil]
    exact ⟨_, cuts_singleton hstretch hnonempty, hreads rfl⟩
  · exact ⟨_, hcuts.cons hstretch hnonempty, hreads hparts⟩

/-- Filters of the strict grammar are found by the tolerant one. -/
theorem exists_holds {fuel : Nat} {filters : List FilterCall} (hspelled : Spelled s ls)
    (hchain : ls.IsChain Apart) (htight : ∀ y ∈ ls.head?, y.gap = false)
    (hread : readFilters fuel (ls.map (·.lexeme)) = .ok (filters, rest))
    (hrest : currentKind rest = .ending) :
    s = [] ∧ filters = [] ∨
      ∃ more, s = '|' :: more ∧ Holds more filters ∧ Holds (trimLeft more) filters := by
  have hdone {s : List Char} {ls : List Spaced} (hspelled : Spelled s ls)
      (htight : ∀ y ∈ ls.head?, y.gap = false)
      (hkind : currentKind (ls.map (·.lexeme)) = .ending) : s = [] := by
    cases hspelled with
    | ending hgap => simpa using htight _ rfl
    | lexeme _ hstarts _ => exact absurd hkind hstarts.ne_ending
  -- induction on the fuel; blanks behind a bar may stay or be dropped, as the first bar loses its own
  induction fuel generalizing s ls filters with
  | zero =>
    cases hread
    exact .inl ⟨hdone hspelled htight hrest, rfl⟩
  | succ fuel ih =>
    rw [readFilters] at hread
    split at hread
    · cases hread
      exact .inl ⟨hdone hspelled htight hrest, rfl⟩
    · next htake =>
      obtain ⟨p, ls, rfl, hpipe, heq⟩ := exists_of_take? htake (by decide)
      cases heq
      obtain ⟨⟨name, afterName⟩, hname, hread⟩ := bind_eq_ok_iff.mp hread
      obtain ⟨⟨xs, afterXs⟩, hxs, hread⟩ := bind_eq_ok_iff.mp hread
      obtain ⟨call, hcall, hread⟩ := bind_eq_ok_iff.mp hread
      obtain ⟨⟨others, afterOthers⟩, hothers, hread⟩ := bind_eq_ok_iff.mp hread
      cases hread
      obtain ⟨hhead, hchain⟩ := List.isChain_cons.mp hchain
      -- the bar, its name and its arguments, one after another in the text
      obtain ⟨gap, s₁, rfl, hgap, hgapP, hstartsP, hspelled⟩ :=
        exists_lexeme hspelled hpipe (by decide)
      obtain ⟨l, hl, hlkind, rfl⟩ := take_eq_ok (mapError_eq_ok_iff.mp hname) (by decide)
      obtain ⟨n, ls, rfl, rfl, rfl⟩ := List.map_eq_cons_iff.mp hl
      have hword := (hhead n rfl).name hpipe
      obtain ⟨gap₁, s₂, rfl, hgap₁, -, hstartsN, hspelled⟩ :=
        exists_lexeme hspelled hlkind (by decide)
      obtain ⟨t, after, arguments, back, h⟩ := exists_supplies_list hspelled
        (List.isChain_cons.mp hchain).2 hxs (kind_of_readFilters hothers hrest)
      have hafter := ih h.spelled h.chain h.tight (by rw [h.lexemes]; exact hothers)
      have hstops : Stops isWordChar t := by
        have hasked : '?' ∉ n.lexeme.chars := fun h => absurd (hword _ h) (by decide)
        have hnames := hstartsN.stops_isNameChar hlkind hasked
        rw [h.text] at hnames
        exact hnames.left.of_imp fun c hc => by simp [isNameChar, hc]
      obtain ⟨d, chars, hchars, -⟩ := hstartsN.chars_eq
      have hne : n.lexeme.chars ≠ [] := by rw [hchars]; nofun
      rw [ofArguments_congr h.same] at hcall
      have hholds {gap : List Char} (hgap : IsGap gap) :
          Holds (gap ++ (n.lexeme.chars ++ t) ++ after) (call :: others) :=
        .filter hgap hword hne h.pieces hstops h.finds hcall
          (hafter.imp_right fun ⟨more, htext, hmore, _⟩ => ⟨more, htext, hmore⟩)
      have hnil : gap = [] := by
        rw [htight p rfl] at hgapP
        simpa using hgapP
      refine .inr ⟨gap₁ ++ (n.lexeme.chars ++ s₂), ?_, ?_, ?_⟩
      · rw [hnil, hstartsP.eq_of_kind (c := '|') rfl hpipe]
        rfl
      · simpa [h.text] using hholds hgap₁
      · rw [trimLeft_gap hgap₁, trimLeft_of_stops (hstartsN.stops_isBlank s₂)]
        simpa [h.text] using hholds isGap_nil

/-- **Pipelines mean the same in both grammars**, when the strict one reads them and their lexemes are
spaced so. -/
theorem readLax_of_readStrict {markup : List Char} {pipeline : Pipeline}
    (hstrict : readStrict markup = .ok pipeline) (hchain : (spaced markup).IsChain Apart) :
    readLax markup = .ok pipeline := by
  obtain ⟨lexemes, hlexemes, hread⟩ := bind_eq_ok_iff.mp hstrict
  obtain ⟨ls, hspelled, rfl⟩ :=
    scan_eq_ok_iff.mp (mapError_eq_ok_iff.mp (mapError_eq_ok_iff.mp hlexemes))
  rw [hspelled.spaced_eq] at hchain
  unfold readLax
  -- a markup of blanks alone, or an expression with what follows it
  split at hread
  · next hending =>
    cases hread
    cases ls with
    | nil => cases hspelled
    | cons y ls => rw [first?_of_isGap (hspelled.isGap (beq_iff_eq.mp hending)).1]
  · obtain ⟨⟨text, afterText⟩, htext, hread⟩ := bind_eq_ok_iff.mp hread
    obtain ⟨expr, hexpr, hread⟩ := bind_eq_ok_iff.mp hread
    obtain ⟨⟨filters, rest⟩, hfilters, hread⟩ := bind_eq_ok_iff.mp hread
    obtain ⟨⟨taken, left⟩, hending, hread⟩ := bind_eq_ok_iff.mp hread
    cases hread
    have hrest : currentKind rest = .ending := currentKind_of_take (mapError_eq_ok_iff.mp hending)
    obtain ⟨front, back, rfl, rfl, hforms, -, hoperand, hsplit⟩ :=
      exists_operand hspelled (mapError_eq_ok_iff.mp htext)
    obtain ⟨hfront, hback, -⟩ := List.isChain_append.mp hchain
    obtain ⟨gap, after, rfl, hgap, -, hspelled⟩ := hsplit (Apart.tight hfront hforms)
    -- the strict grammar goes on with a bar or ends, and there the fragment of the tolerant one ends as well
    cases back with
    | nil => cases hspelled
    | cons y back =>
      have hkinds : ∀ kind ∈ [Lexeme.Kind.ending, .pipe], kind ∈ [Lexeme.Kind.ending, .pipe, .comma] := by
        decide
      have hkind : y.lexeme.kind ∈ [.ending, .pipe, .comma] :=
        hkinds _ (kind_of_readFilters hfilters hrest)
      rw [first?_gap hgap, first?_of_at? (hoperand.at?_eq (.inl (hspelled.ended hkind).stops_isInner))]
      dsimp only
      obtain ⟨gap', after, rfl, hgap', -, hspelled⟩ := hspelled.drop_gap
      have hholds := exists_holds hspelled (Apart.isChain_drop_gap hback)
        (by rintro _ ⟨⟩; rfl) hfilters hrest
      rw [afterBar?_gap hgap']
      refine bind_eq_ok_iff.mpr ⟨expr, hexpr, ?_⟩
      rcases hholds with ⟨rfl, rfl⟩ | ⟨more, rfl, -, parts, hcuts, hparts⟩
      · rfl
      · have hbar : afterBar? ('|' :: more) = some (trimLeft more) := rfl
        rw [hbar]
        refine bind_eq_ok_iff.mpr ⟨filters, ?_, rfl⟩
        rw [show stretches (trimLeft more) = parts from hcuts _ (Nat.le_refl _)]
        exact hparts

end Pipeline

end Stencil
