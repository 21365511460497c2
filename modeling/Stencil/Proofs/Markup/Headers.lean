import Stencil.Proofs.Markup.Fragments

/-!
# Heads of loops

What the tolerant grammar finds in the head of a loop: the variable, the collection and its direction
at the front, and the attributes anywhere in the text (`Lists`), stated for every amount of fuel that is
enough.
-/

namespace Stencil.Fragment

open Text

variable {c : Char} {s t gap gap' after name value : List Char} {pairs : List (List Char × List Char)}

/-! ## Variable and collection -/

theorem afterIn?_append (hgap : IsGap gap) (hne : gap ≠ []) (hgap' : IsGap gap') (hne' : gap' ≠ [])
    (hs : Stops isBlank s) : afterIn? (gap ++ 'i' :: 'n' :: (gap' ++ s)) = some s := by
  obtain ⟨b, gap', rfl⟩ := List.exists_cons_of_ne_nil hne'
  have htrim : trimLeft (gap ++ 'i' :: 'n' :: (b :: gap' ++ s)) = 'i' :: 'n' :: (b :: gap' ++ s) := by
    rw [trimLeft_gap hgap, trimLeft_of_stops (stops_cons.mpr (by decide))]
  unfold afterIn?
  dsimp only
  rw [htrim]
  show (if _ then some (trimLeft (b :: gap' ++ s)) else none) = some s
  rw [if_pos (by simp [List.length_pos_iff.mpr hne, (isGap_cons.mp hgap').1]), trimLeft_gap hgap',
    trimLeft_of_stops hs]

/-- The collection is the run behind the word, and goes no further than to what cannot be in one. -/
theorem loopHeader?_append (hname : ∀ d ∈ name, isNameChar d = true) (hne : name ≠ [])
    (hgap : IsGap gap) (hgapne : gap ≠ []) (hgap' : IsGap gap') (hgapne' : gap' ≠ []) (ht : Operand t)
    (hafter : Stops isInner after) :
    loopHeader? (name ++ (gap ++ 'i' :: 'n' :: (gap' ++ (t ++ after)))) =
      some (name, t, "reversed".toList.isPrefixOf (trimLeft after)) := by
  have hstops : Stops isNameChar (gap ++ 'i' :: 'n' :: (gap' ++ (t ++ after))) :=
    (stops_isInner_gap hgap hgapne _).of_imp fun _ => isInner_of_isNameChar
  unfold loopHeader?
  dsimp only
  rw [takeWhile_run hname hstops, dropWhile_run hname hstops, if_neg (by simpa using hne),
    afterIn?_append hgap hgapne hgap' hgapne' (ht.stops_isBlank after)]
  show (run? (t ++ after)).bind _ = _
  rw [run?_append ht.runs ht.nonempty hafter]
  rfl

/-! ## Attributes -/

theorem attributeAt?_eq_none (hs : ∀ d ∈ (trimLeft (s.dropWhile isNameChar)).head?, d ≠ ':') :
    attributeAt? (c :: s) = none := by
  unfold attributeAt?
  dsimp only
  split
  · split
    · next after hcolon => exact absurd rfl (hs ':' (by rw [hcolon]; rfl))
    · rfl
  · rfl

theorem attributeAt?_append (hc : isWordChar c = true) (hname : ∀ d ∈ name, isNameChar d = true)
    (hgap : IsGap gap) (hgap' : IsGap gap') (ht : Operand t) (hafter : Stops isInner after ∨ IsString t) :
    attributeAt? (c :: (name ++ (gap ++ ':' :: (gap' ++ (t ++ after))))) = some ((c :: name, t), after) := by
  have hstops : Stops isNameChar (gap ++ ':' :: (gap' ++ (t ++ after))) := by
    by_cases hne : gap = []
    · subst hne
      exact stops_cons.mpr (by decide)
    · exact (stops_isInner_gap hgap hne _).of_imp fun _ => isInner_of_isNameChar
  have hcolon : trimLeft (gap ++ ':' :: (gap' ++ (t ++ after))) = ':' :: (gap' ++ (t ++ after)) := by
    rw [trimLeft_gap hgap, trimLeft_of_stops (stops_cons.mpr (by decide))]
  unfold attributeAt?
  dsimp only
  rw [if_pos hc, dropWhile_run hname hstops, takeWhile_run hname hstops, hcolon]
  show (at? (trimLeft (gap' ++ (t ++ after)))).map _ = _
  rw [trimLeft_gap hgap', trimLeft_of_stops (ht.stops_isBlank after), ht.at?_eq hafter]
  rfl

/-- The attributes that are found in the text, whatever the fuel. -/
def Lists (s : List Char) (pairs : List (List Char × List Char)) : Prop :=
  ∀ fuel, s.length ≤ fuel → attributesWithin fuel s = pairs

theorem lists_nil : Lists [] [] := fun fuel _ => by cases fuel <;> rfl

theorem Lists.cons_of_eq_none (hnone : attributeAt? (c :: s) = none) (hlists : Lists s pairs) :
    Lists (c :: s) pairs := by
  intro fuel hfuel
  rw [List.length_cons] at hfuel
  obtain ⟨fuel, rfl⟩ := Nat.exists_eq_succ_of_ne_zero (show fuel ≠ 0 by omega)
  rw [attributesWithin, hnone]
  exact hlists fuel (by omega)

theorem Lists.after_gap (hgap : IsGap gap) (hlists : Lists s pairs) : Lists (gap ++ s) pairs := by
  induction gap with
  | nil => exact hlists
  | cons c gap ih =>
    obtain ⟨hc, hgap⟩ := isGap_cons.mp hgap
    refine .cons_of_eq_none ?_ (ih hgap)
    have hword : ¬ isWordChar c = true := fun h => by
      rw [isBlank_of_isNameChar (by simp [isNameChar, h])] at hc
      cases hc
    exact if_neg hword

/-- A text without colons is passed over, if what follows it starts with neither a name nor a colon. -/
theorem Lists.skip (ht : ':' ∉ t) (hs : Stops isNameChar s) (hcolon : ∀ d ∈ (trimLeft s).head?, d ≠ ':')
    (hlists : Lists s pairs) : Lists (t ++ s) pairs := by
  induction t with
  | nil => exact hlists
  | cons c t ih =>
    have ht : ':' ∉ t := fun h => ht (List.mem_cons_of_mem _ h)
    refine .cons_of_eq_none (attributeAt?_eq_none ?_) (ih ht)
    obtain ⟨run, back, rfl, hrun, hback, -, -⟩ := exists_run isNameChar t
    show ∀ d ∈ (trimLeft ((run ++ back ++ s).dropWhile isNameChar)).head?, d ≠ ':'
    rw [List.append_assoc, dropWhile_run hrun (hback.append fun _ => hs)]
    obtain ⟨gap, more, rfl, hgap, hmore, -⟩ := exists_gap back
    rw [List.append_assoc, trimLeft_gap hgap]
    cases more with
    | nil => exact hcolon
    | cons d more =>
      rw [List.cons_append, trimLeft_of_stops (stops_cons.mpr (stops_cons.mp hmore))]
      rintro _ ⟨⟩ rfl
      exact ht (by simp)

theorem Lists.attribute (hc : isWordChar c = true) (hname : ∀ d ∈ name, isNameChar d = true)
    (hgap : IsGap gap) (hgap' : IsGap gap') (ht : Operand t) (hafter : Stops isInner after ∨ IsString t)
    (hlists : Lists after pairs) :
    Lists (c :: (name ++ (gap ++ ':' :: (gap' ++ (t ++ after))))) ((c :: name, t) :: pairs) := by
  intro fuel hfuel
  simp only [List.length_cons, List.length_append] at hfuel
  obtain ⟨fuel, rfl⟩ := Nat.exists_eq_succ_of_ne_zero (show fuel ≠ 0 by omega)
  rw [attributesWithin, attributeAt?_append hc hname hgap hgap' ht hafter]
  dsimp only
  rw [hlists fuel (by omega)]

end Stencil.Fragment
