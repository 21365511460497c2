import Stencil.Proofs.Markup.Headers
import Stencil.Proofs.Markup.Layout
import Stencil.Tree.Header

/-!
# Heads of loops in both grammars

The head of a loop that the strict grammar reads is read likewise by the tolerant one, if its variable
is a plain name, its expressions hold no blanks and are set apart from the words behind them, and no
string of its collection holds a colon (`IsSpaced`).
-/

namespace Stencil.LoopHeader

open Text Fragment Lexeme Grammar

/-! ## How a head is spaced -/

/-- How lexemes of a head follow each other: no blanks stand inside an expression, and some in front of
a word behind it, unless the expression ends with a string. -/
structure Apart (x y : Spaced) : Prop where
  inside : ¬ NewWord x.lexeme y.lexeme → x.lexeme.kind ≠ .colon → y.lexeme.kind ∉ [.ending, .colon] →
    y.gap = false
  word : NewWord x.lexeme y.lexeme → y.gap = true ∨ x.lexeme.kind = .string

instance (x y : Spaced) : Decidable (Apart x y) :=
  decidable_of_iff
    ((¬ NewWord x.lexeme y.lexeme → x.lexeme.kind ≠ .colon → y.lexeme.kind ∉ [.ending, .colon] →
        y.gap = false) ∧
      (NewWord x.lexeme y.lexeme → y.gap = true ∨ x.lexeme.kind = .string))
    ⟨fun ⟨h₁, h₂⟩ => ⟨h₁, h₂⟩, fun ⟨h₁, h₂⟩ => ⟨h₁, h₂⟩⟩

/-- Whether the lexemes of a head are spaced so that its collection is one run of a fragment and its
attributes are all that is found as such. The first lexeme is the variable, and the third one starts the
collection. -/
def IsSpaced : List Spaced → Prop
  | item :: _ :: first :: ls =>
    item.gap = false ∧ '?' ∉ item.lexeme.chars ∧ first.gap = true ∧
      (first.lexeme.kind = .string → ∀ y ∈ ls.head?, y.gap = true ∨ y.lexeme.kind = .ending) ∧
      (∀ y ∈ (first :: ls).takeWhile (·.lexeme.kind ≠ .colon),
        y.lexeme.kind = .string → ':' ∉ y.lexeme.chars) ∧
      (first :: ls).IsChain Apart
  | _ => False

instance : DecidablePred IsSpaced
  | [] | [_] | [_, _] => inferInstanceAs (Decidable False)
  | _ :: _ :: _ :: _ => inferInstanceAs (Decidable (_ ∧ _))

variable {s : List Char} {x y : Spaced} {ls front : List Spaced} {rest : Rest}

theorem Apart.tight (hchain : front.IsChain Apart)
    (hforms : Forms .expression (front.map (·.lexeme))) : Tight front := by
  have hinner : ∀ kind ∈ innerKinds, kind ≠ .colon ∧ kind ∉ [Kind.ending, .colon] := by decide
  exact hforms.tight hchain fun hx hy hword h => h.inside hword (hinner _ hx).1 (hinner _ hy).2

/-- Behind an expression a fragment ends, unless the expression is a string. -/
theorem stops_of_isChain (hforms : Forms .expression (front.map (·.lexeme)))
    (hspelled : Spelled s (y :: ls)) (hchain : (front ++ y :: ls).IsChain Apart)
    (hy : y.lexeme.kind ∈ [.ending, .identifier]) :
    Stops isInner s ∨ ∃ x, front = [x] ∧ x.lexeme.kind = .string := by
  simp only [List.mem_cons, List.not_mem_nil, or_false] at hy
  rcases hy with hy | hy
  · exact .inl (hspelled.stops_isInner (.inr (by rw [hy]; decide)))
  · obtain ⟨l, more, hmap, -⟩ := hforms.head
    have hne : front ≠ [] := by
      rintro rfl
      cases hmap
    have hx : front.getLast hne ∈ front.getLast? := List.getLast?_eq_some_getLast hne
    obtain ⟨hkind, hstring⟩ := hforms.getLast (front.getLast hne).lexeme (by
      rw [List.getLast?_map, hx]
      rfl)
    have hxy := (List.isChain_append.mp hchain).2.2 _ hx y rfl
    refine (hxy.word ⟨hkind, hy⟩).imp (fun hgap => hspelled.stops_isInner (.inl hgap)) fun h => ?_
    obtain ⟨x, hfront, -⟩ := List.map_eq_singleton_iff.mp (hstring h).2
    refine ⟨x, hfront, ?_⟩
    subst hfront
    exact h

/-! ## Attributes -/

/-- The text holds attributes that turn one head into the other, and nothing in front of them. -/
structure Attributes (s : List Char) (header header' : LoopHeader)
    (pairs : List (List Char × List Char)) : Prop where
  lists : Lists s pairs
  sets : pairs.foldlM (fun h (key, value) => h.withAttribute key value) header = .ok header'
  head : ∀ c ∈ (trimLeft s).head?, c = 'l' ∨ c = 'o'

theorem attributes_nil (hgap : IsGap s) (header : LoopHeader) : Attributes s header header [] := by
  refine ⟨?_, rfl, ?_⟩
  · simpa using lists_nil.after_gap hgap
  · rw [trimLeft_of_isGap hgap]
    exact fun _ hc => nomatch hc

theorem Attributes.cons {gap gap₁ gap₂ name t after : List Char} {d : Char}
    {header next header' : LoopHeader} {pairs : List (List Char × List Char)}
    (h : Attributes after next header' pairs) (hd : d = 'l' ∨ d = 'o')
    (hname : ∀ c ∈ name, isNameChar c = true) (hgap : IsGap gap) (hgap₁ : IsGap gap₁) (hgap₂ : IsGap gap₂)
    (ht : Operand t) (hafter : Stops isInner after ∨ IsString t)
    (hnext : header.withAttribute (d :: name) t = .ok next) :
    Attributes (gap ++ (d :: name ++ (gap₁ ++ ':' :: (gap₂ ++ (t ++ after))))) header header'
      ((d :: name, t) :: pairs) := by
  have hword : isWordChar d = true := by rcases hd with rfl | rfl <;> decide
  have hblank : isBlank d = false := by rcases hd with rfl | rfl <;> decide
  refine ⟨.after_gap hgap (.attribute hword hname hgap₁ hgap₂ ht hafter h.lists), ?_, ?_⟩
  · rw [List.foldlM_cons]
    exact bind_eq_ok_iff.mpr ⟨next, hnext, h.sets⟩
  · rw [trimLeft_gap hgap, List.cons_append, trimLeft_of_stops (stops_cons.mpr hblank)]
    rintro _ ⟨⟩
    exact hd

theorem attribute_eq_some {ls : Rest} {found : List Char × Rest}
    (h : (word? "limit" ls).or (word? "offset" ls) = some found) :
    ∃ d name, (d = 'l' ∨ d = 'o') ∧ (∀ c ∈ name, isNameChar c = true) ∧
      current ls = ⟨.identifier, d :: name⟩ ∧ found = (d :: name, ls.tail) := by
  rcases Option.or_eq_some_iff.mp h with h | ⟨-, h⟩
  · exact ⟨'l', ['i', 'm', 'i', 't'], .inl rfl, by decide, word?_eq_some h⟩
  · exact ⟨'o', ['f', 'f', 's', 'e', 't'], .inr rfl, by decide, word?_eq_some h⟩

/-- Attributes of the strict grammar are found by the tolerant one. -/
theorem exists_attributes {fuel : Nat} {header header' : LoopHeader} (hspelled : Spelled s ls)
    (hchain : ls.IsChain Apart) (hread : readAttributes fuel header (ls.map (·.lexeme)) = .ok header')
    (hfuel : ls.length ≤ fuel) :
    currentKind (ls.map (·.lexeme)) ∈ [.ending, .identifier] ∧
      ∃ pairs, Attributes s header header' pairs := by
  -- induction on the fuel, of which there is one unit for each lexeme
  induction fuel generalizing s ls header with
  | zero =>
    cases List.eq_nil_of_length_eq_zero (Nat.le_zero.mp hfuel)
    cases hspelled
  | succ fuel ih =>
    rw [readAttributes] at hread
    split at hread
    · next hkeyword =>
      obtain ⟨hname, hcolon⟩ := Bool.and_eq_true_iff.mp hkeyword
      obtain ⟨k, c, ls, rfl, hk, hc⟩ := exists_of_looksAt hname hcolon
      split at hread
      · cases hread
      · next hfound =>
        obtain ⟨d, name, hd, hchars, hcurrent, heq⟩ := attribute_eq_some hfound
        cases heq
        obtain ⟨⟨value, afterValue⟩, hvalue, hbody⟩ := bind_eq_ok_iff.mp hread
        obtain ⟨next, hnext, hmore⟩ := bind_eq_ok_iff.mp hbody
        obtain ⟨gap, s₁, rfl, hgap, -, -, hspelled⟩ := exists_lexeme hspelled hk (by decide)
        obtain ⟨gap₁, s₂, rfl, hgap₁, -, hstarts, hspelled⟩ := exists_lexeme hspelled hc (by decide)
        have hproper : Proper (ls.map (·.lexeme)) := List.forall_mem_map.mpr hspelled.forall_starts
        obtain ⟨front, back, rfl, rfl, hforms, rfl, hoperand, hsplit⟩ :=
          exists_operand hspelled (mapError_eq_ok_iff.mp hvalue)
        rw [List.map_append] at hproper
        have hvalues := (List.isChain_cons.mp (List.isChain_cons.mp hchain).2).2
        obtain ⟨hfront, hback, -⟩ := List.isChain_append.mp hvalues
        obtain ⟨gap₂, s₃, rfl, hgap₂, -, hspelled⟩ := hsplit (Apart.tight hfront hforms)
        simp only [List.length_cons, List.length_append] at hfuel
        obtain ⟨hkind, pairs, h⟩ := ih hspelled hback hmore (by omega)
        have hafter : Stops isInner s₃ ∨ IsString (tightSpelling front) := by
          cases back with
          | nil => cases hspelled
          | cons y back =>
            refine (stops_of_isChain hforms hspelled hvalues hkind).imp_right ?_
            rintro ⟨x, rfl, hstring⟩
            rw [tightSpelling, List.map_singleton, spelling_cons, spelling_nil, List.append_nil]
            exact hproper.left.isString List.mem_cons_self hstring
        have hkey : k.lexeme = ⟨.identifier, d :: name⟩ := hcurrent
        have hcolonChars : c.lexeme.chars = [':'] := by rw [hstarts.eq_of_kind (c := ':') rfl hc]
        rw [hkey, hcolonChars]
        refine ⟨?_, _, h.cons hd hchars hgap hgap₁ hgap₂ hoperand hafter hnext⟩
        rw [List.map_cons, hkey]
        exact List.mem_cons_of_mem _ List.mem_cons_self
    · obtain ⟨taken, htake, hdone⟩ := bind_eq_ok_iff.mp hread
      cases hdone
      have hending := currentKind_of_take (mapError_eq_ok_iff.mp htake)
      cases ls with
      | nil => cases hspelled
      | cons y ls => exact ⟨by rw [hending]; decide, [], attributes_nil (hspelled.isGap hending).1 _⟩

/-! ## Heads -/

/-- What stands behind the collection: a direction or none, and attributes that complete the head. -/
structure Tail (s : List Char) (itemName collection : List Char) (header : LoopHeader)
    (word after : List Char) (started : LoopHeader) (pairs : List (List Char × List Char)) : Prop where
  text : s = word ++ after
  noColon : ':' ∉ word
  stops : word = [] ∨ Stops isNameChar after
  starts : start itemName collection ("reversed".toList.isPrefixOf (trimLeft s)) = .ok started
  attributes : Attributes after started header pairs

/-- What the strict grammar reads behind the collection. -/
def readTail (itemName collection : List Char) (ls : Rest) : Outcome LoopHeader :=
  match word? "reversed" ls with
  | some (_, rest) => do readAttributes (rest.length + 1) (← start itemName collection true) rest
  | none => do readAttributes (ls.length + 1) (← start itemName collection false) ls

theorem exists_tail {itemName collection : List Char} {header : LoopHeader} (hspelled : Spelled s ls)
    (hchain : ls.IsChain Apart) (hread : readTail itemName collection (ls.map (·.lexeme)) = .ok header) :
    currentKind (ls.map (·.lexeme)) ∈ [.ending, .identifier] ∧
      ∃ word after started pairs, Tail s itemName collection header word after started pairs := by
  unfold readTail at hread
  split at hread
  · next hfound =>
    obtain ⟨hcurrent, heq⟩ := word?_eq_some hfound
    cases heq
    obtain ⟨started, hstarted, hread⟩ := bind_eq_ok_iff.mp hread
    cases ls with
    | nil => cases hspelled
    | cons y ls =>
      have hy : y.lexeme = ⟨.identifier, "reversed".toList⟩ := hcurrent
      obtain ⟨gap, after, rfl, hgap, -, hstarts, hspelled⟩ :=
        exists_lexeme hspelled (congrArg Lexeme.kind hy) (by decide)
      rw [hy] at hstarts
      obtain ⟨-, pairs, h⟩ := exists_attributes hspelled (List.isChain_cons.mp hchain).2 hread (by simp)
      have hkind : currentKind ((y :: ls).map (·.lexeme)) ∈ [Kind.ending, .identifier] := by
        rw [List.map_cons, hy]
        exact List.mem_cons_of_mem _ List.mem_cons_self
      refine ⟨hkind, gap ++ "reversed".toList, after, started, pairs, by simp [hy],
        ?_, .inr (hstarts.stops_isNameChar rfl (by decide)), ?_, h⟩
      · refine fun h => (List.mem_append.mp h).elim (fun h => absurd (hgap _ h) (by decide)) ?_
        decide
      · rw [hy, trimLeft_gap hgap, trimLeft_of_stops (hstarts.stops_isBlank after),
          List.isPrefixOf_iff_prefix.mpr (List.prefix_append _ _)]
        exact hstarted
  · obtain ⟨started, hstarted, hread⟩ := bind_eq_ok_iff.mp hread
    obtain ⟨hkind, pairs, h⟩ := exists_attributes hspelled hchain hread (by simp)
    refine ⟨hkind, [], s, started, pairs, rfl, List.not_mem_nil, .inl rfl, ?_, h⟩
    have hno : "reversed".toList.isPrefixOf (trimLeft s) = false := by
      cases htrim : trimLeft s with
      | nil => rfl
      | cons c more => rcases h.head c (by rw [htrim]; rfl) with rfl | rfl <;> rfl
    rw [hno]
    exact hstarted

/-- The tolerant grammar on a head whose collection is followed by such a text. -/
theorem readLax_append {item gap gap' t direction after : List Char} {header started : LoopHeader}
    {pairs : List (List Char × List Char)} (hitem : ∀ c ∈ item, isNameChar c = true) (hne : item ≠ [])
    (hgap : IsGap gap) (hgapne : gap ≠ []) (hgap' : IsGap gap') (hgapne' : gap' ≠ []) (ht : Operand t)
    (hcolon : ':' ∉ t) (hs : Stops isInner s) (h : Tail s item t header direction after started pairs) :
    readLax (item ++ (gap ++ 'i' :: 'n' :: (gap' ++ (t ++ s)))) = .ok header := by
  have hno {gap : List Char} (hgap : IsGap gap) : ':' ∉ gap := fun h => absurd (hgap _ h) (by decide)
  have hplain : ':' ∉ item ++ gap ++ ['i', 'n'] ++ gap' ++ t ++ direction := by
    have hname : ':' ∉ item := fun h => absurd (hitem _ h) (by decide)
    simp only [List.mem_append, not_or]
    exact ⟨⟨⟨⟨⟨hname, hno hgap⟩, by decide⟩, hno hgap'⟩, hcolon⟩, h.noColon⟩
  have hafter : Stops isNameChar after := by
    refine h.stops.elim (fun hnil => ?_) id
    have htext := h.text
    rw [hnil, List.nil_append] at htext
    rw [← htext]
    exact hs.of_imp fun _ => isInner_of_isNameChar
  have hlists : Lists (item ++ (gap ++ 'i' :: 'n' :: (gap' ++ (t ++ s)))) pairs := by
    have := h.attributes.lists.skip hplain hafter fun c hc => by
      rcases h.attributes.head c hc with rfl | rfl <;> decide
    rw [h.text]
    simpa only [List.append_assoc, List.cons_append, List.nil_append] using this
  rw [readLax, loopHeader?_append hitem hne hgap hgapne hgap' hgapne' ht hs]
  refine bind_eq_ok_iff.mpr ⟨started, h.starts, ?_⟩
  rw [show attributes (item ++ (gap ++ 'i' :: 'n' :: (gap' ++ (t ++ s)))) = pairs from
    hlists _ (Nat.le_refl _)]
  exact h.attributes.sets

/-- No colon stands in an expression whose strings hold none. -/
theorem not_mem_tightSpelling (hforms : Forms .expression (front.map (·.lexeme)))
    (hproper : Proper (front.map (·.lexeme)))
    (hstrings : ∀ x ∈ front, x.lexeme.kind = .string → ':' ∉ x.lexeme.chars) :
    ':' ∉ tightSpelling front := by
  intro h
  obtain ⟨l, hl, hcolon⟩ := List.mem_flatMap.mp h
  have hkind := hforms.kinds l hl
  by_cases hstring : l.kind = .string
  · obtain ⟨x, hx, rfl⟩ := List.mem_map.mp hl
    exact hstrings x hx hstring hcolon
  · obtain ⟨after, hstarts⟩ := hproper.starts hl hkind
    exact absurd (hstarts.solid hkind hstring _ hcolon) (by decide)

/-- The collection at the front of the lexemes behind the word, and what follows it. -/
theorem exists_collection {itemName collection : List Char} {header : LoopHeader} {first : Spaced}
    (hspelled : Spelled s (first :: ls)) (hchain : (first :: ls).IsChain Apart) (hgap : first.gap = true)
    (hfirst : first.lexeme.kind = .string → ∀ y ∈ ls.head?, y.gap = true ∨ y.lexeme.kind = .ending)
    (hcolons : ∀ y ∈ (first :: ls).takeWhile (·.lexeme.kind ≠ .colon),
      y.lexeme.kind = .string → ':' ∉ y.lexeme.chars)
    (hcollection : expression ((first :: ls).map (·.lexeme)) = .ok (collection, rest))
    (hread : readTail itemName collection rest = .ok header) :
    ∃ gap t direction after started pairs, s = gap ++ (collection ++ t) ∧ IsGap gap ∧ gap ≠ [] ∧
      Operand collection ∧ ':' ∉ collection ∧ Stops isInner t ∧
      Tail t itemName collection header direction after started pairs := by
  have hproper : Proper ((first :: ls).map (·.lexeme)) := List.forall_mem_map.mpr hspelled.forall_starts
  obtain ⟨front, back, hls, rfl, hforms, rfl, hoperand, hsplit⟩ := exists_operand hspelled hcollection
  rw [hls] at hchain hcolons hproper
  obtain ⟨hfront, hback, -⟩ := List.isChain_append.mp hchain
  obtain ⟨gap, t, rfl, hgaps, hhead, hrest⟩ := hsplit (Apart.tight hfront hforms)
  obtain ⟨hkind, direction, after, started, pairs, h⟩ := exists_tail hrest hback hread
  refine ⟨gap, t, direction, after, started, pairs, rfl, hgaps, ?_, hoperand, ?_, ?_, h⟩
  · obtain ⟨l, more, hmap, -⟩ := hforms.head
    obtain ⟨x, xs, rfl, -, -⟩ := List.map_eq_cons_iff.mp hmap
    obtain ⟨rfl, -⟩ := List.cons.inj hls
    simpa [hgap] using hhead first rfl
  · rw [List.map_append] at hproper
    refine not_mem_tightSpelling hforms hproper.left fun x hx => hcolons x ?_
    -- the colons of attributes stand behind the collection
    have hinner : ∀ kind ∈ innerKinds, kind ≠ .colon := by decide
    rw [List.takeWhile_append_of_pos fun z hz => by
      simpa using hinner _ (hforms.kinds _ (List.mem_map_of_mem hz))]
    exact List.mem_append_left _ hx
  · cases back with
    | nil => cases hrest
    | cons y back =>
      refine (stops_of_isChain hforms hrest hchain hkind).elim id ?_
      rintro ⟨x, rfl, hstring⟩
      obtain ⟨rfl, rfl⟩ := List.cons.inj hls
      refine hrest.stops_isInner ((hfirst hstring y rfl).imp_right fun h => ?_)
      rw [h]
      exact List.mem_cons_self

/-- **Heads of loops mean the same in both grammars**, when the strict one reads them and their lexemes
are spaced so. -/
theorem readLax_of_readStrict {markup : List Char} {header : LoopHeader}
    (hstrict : readStrict markup = .ok header) (hspaced : IsSpaced (spaced markup)) :
    readLax markup = .ok header := by
  obtain ⟨lexemes, hlexemes, hread⟩ := bind_eq_ok_iff.mp hstrict
  obtain ⟨ls, hspelled, rfl⟩ :=
    scan_eq_ok_iff.mp (mapError_eq_ok_iff.mp (mapError_eq_ok_iff.mp hlexemes))
  rw [hspelled.spaced_eq] at hspaced
  match ls with
  | [] | [_] | [_, _] => cases hspaced
  | item :: word :: first :: ls =>
    obtain ⟨hitemGap, hasked, hfirstGap, hfirst, hcolons, hchain⟩ := hspaced
    obtain ⟨⟨itemName, afterItem⟩, hitem, hread⟩ := bind_eq_ok_iff.mp hread
    obtain ⟨l, hl, hitemKind, rfl⟩ := take_eq_ok (mapError_eq_ok_iff.mp hitem) (by decide)
    obtain ⟨rfl, rfl⟩ := List.cons.inj hl
    dsimp only at hread
    split at hread
    · cases hread
    · next hin =>
      obtain ⟨hcurrent, heq⟩ := word?_eq_some hin
      cases heq
      obtain ⟨⟨collection, afterCollection⟩, hcollection, hread⟩ := bind_eq_ok_iff.mp hread
      have hword : word.lexeme = ⟨.identifier, ['i', 'n']⟩ := hcurrent
      -- the text is the variable, the word behind a gap, and the collection with what follows it
      obtain ⟨gap₀, s₁, rfl, -, hgap₀, hstarts, hspelled⟩ := exists_lexeme hspelled hitemKind (by decide)
      obtain ⟨gap₁, s₂, rfl, hgap₁, -, -, hspelled⟩ :=
        exists_lexeme hspelled (congrArg Lexeme.kind hword) (by decide)
      obtain ⟨gap₂, s₃, direction, after, started, pairs, rfl, hgap₂, hne₂, hoperand, hcolon, hstops, h⟩ :=
        exists_collection hspelled hchain hfirstGap hfirst hcolons (mapError_eq_ok_iff.mp hcollection) hread
      have hgap₀ : gap₀ = [] := by simpa [hitemGap] using hgap₀
      subst hgap₀
      have hname := hstarts.forall_isNameChar hitemKind hasked
      have hends := hstarts.stops_isNameChar hitemKind hasked
      have hne : item.lexeme.chars ≠ [] := by
        obtain ⟨c, chars, hchars, -⟩ := hstarts.chars_eq
        rw [hchars]
        nofun
      -- without a gap the variable would go on with the word
      have hne₁ : gap₁ ≠ [] := by
        rintro rfl
        rw [hword] at hends
        exact absurd (stops_cons.mp hends) (by decide)
      have hlax := readLax_append hname hne hgap₁ hne₁ hgap₂ hne₂ hoperand hcolon hstops h
      rw [hword]
      exact hlax

end Stencil.LoopHeader
