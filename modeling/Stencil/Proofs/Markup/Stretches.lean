import Stencil.Proofs.Markup.Fragments
import Stencil.Tree.Pipeline

/-!
# Stretches and arguments

What the tolerant grammar finds in a pipeline: stretches between bars (`Cuts`), the first word of a
stretch, and the arguments behind its colons and commas (`Finds`). Both are stated for every amount of
fuel that is enough, so that they can be put together from left to right.
-/

namespace Stencil

open Text

namespace Fragment

variable {c sep : Char} {s t gap after name word value rest : List Char}

/-! ## Stretches -/

/-- Characters that stand for themselves in a stretch. -/
def isFree (c : Char) : Bool := c != '|' && !isQuote c

theorem isFree_of_isPlain (hc : isPlain c = true) : isFree c = true := by
  obtain ⟨hinner, hquote⟩ := isPlain_iff.mp hc
  simp only [isInner, Bool.and_eq_true] at hinner
  simp [isFree, hquote, hinner.2]

theorem isFree_of_isBlank (hc : isBlank c = true) : isFree c = true := by
  have hne {d : Char} (hd : isBlank d = false) : c ≠ d := by
    rintro rfl
    rw [hc] at hd
    cases hd
  simp [isFree, isQuote, hne (show isBlank '|' = false by decide),
    hne (show isBlank '\'' = false by decide), hne (show isBlank '"' = false by decide)]

theorem stretchWithin_append (ht : Pieces isFree t) (hafter : Stops (· != '|') after) {fuel : Nat}
    (hfuel : t.length ≤ fuel) : stretchWithin fuel (t ++ after) = (t, after) := by
  induction ht generalizing fuel with
  | nil =>
    cases fuel with
    | zero => rfl
    | succ fuel =>
      cases after with
      | nil => rfl
      | cons c after =>
        have hbar : c = '|' := by simpa using hafter
        rw [List.nil_append, stretchWithin, if_pos (by simpa using hbar)]
  | @char c t hc ht ih =>
    obtain ⟨fuel, rfl⟩ := Nat.exists_eq_succ_of_ne_zero (Nat.ne_of_gt (Nat.zero_lt_of_lt hfuel))
    simp only [isFree, isQuote, Bool.and_eq_true, Bool.not_eq_true', bne_iff_ne] at hc
    rw [List.cons_append, stretchWithin, if_neg (by simpa using hc.1), if_neg (by rw [hc.2]; decide),
      ih (Nat.le_of_succ_le_succ hfuel)]
  | @quoted q content t hq hcontent ht ih =>
    simp only [List.length_cons, List.length_append] at hfuel
    obtain ⟨fuel, rfl⟩ := Nat.exists_eq_succ_of_ne_zero (show fuel ≠ 0 by omega)
    have hbar : ¬ (q == '|') = true := by
      rcases isQuote_iff.mp hq with rfl | rfl <;> decide
    have hread := quoted?_append hq hcontent (t ++ after)
    simp only [List.append_assoc, List.cons_append, List.nil_append] at hread ⊢
    rw [stretchWithin, if_neg hbar, if_pos (show (q == '\'' || q == '"') = true from hq), hread]
    dsimp only
    rw [ih (by omega)]
    simp

/-- The text is cut into these stretches, whatever the fuel. -/
def Cuts (s : List Char) (parts : List (List Char)) : Prop :=
  ∀ fuel, s.length ≤ fuel → stretchesWithin fuel s = parts

theorem cuts_nil : Cuts [] [] := fun fuel _ => by cases fuel <;> rfl

theorem Cuts.cons {parts : List (List Char)} (ht : Pieces isFree t) (hne : t ≠ [])
    (hparts : Cuts s parts) : Cuts (t ++ '|' :: s) (t :: parts) := by
  intro fuel hfuel
  obtain ⟨c, t, rfl⟩ := List.exists_cons_of_ne_nil hne
  simp only [List.length_append, List.length_cons] at hfuel
  obtain ⟨fuel, rfl⟩ := Nat.exists_eq_succ_of_ne_zero (show fuel ≠ 0 by omega)
  obtain ⟨fuel, rfl⟩ := Nat.exists_eq_succ_of_ne_zero (show fuel ≠ 0 by omega)
  have hbar : Stops (· != '|') ('|' :: s) := stops_cons.mpr (by decide)
  rw [List.cons_append, stretchesWithin, ← List.cons_append, stretchWithin_append ht hbar (by simp)]
  dsimp only
  rw [stretchesWithin, show stretchWithin (s.length + 1) ('|' :: s) = ([], '|' :: s) from
    stretchWithin_append .nil hbar (Nat.zero_le _)]
  dsimp only
  rw [hparts fuel (by omega)]

theorem cuts_singleton (ht : Pieces isFree t) (hne : t ≠ []) : Cuts t [t] := by
  intro fuel hfuel
  obtain ⟨c, t, rfl⟩ := List.exists_cons_of_ne_nil hne
  rw [List.length_cons] at hfuel
  obtain ⟨fuel, rfl⟩ := Nat.exists_eq_succ_of_ne_zero (show fuel ≠ 0 by omega)
  have hstretch : stretchWithin (t.length + 1) (c :: t) = (c :: t, []) := by
    have := stretchWithin_append ht stops_nil (Nat.le_refl _)
    rwa [List.append_nil] at this
  rw [stretchesWithin, hstretch]
  dsimp only
  rw [cuts_nil fuel (Nat.zero_le _)]

/-! ## Words -/

theorem isBlank_of_isWordChar (hc : isWordChar c = true) : isBlank c = false :=
  isBlank_of_isNameChar (by simp [isNameChar, hc])

theorem firstWord?_append (hgap : IsGap gap) (hname : ∀ d ∈ name, isWordChar d = true)
    (hne : name ≠ []) (hrest : Stops isWordChar rest) :
    firstWord? (gap ++ (name ++ rest)) = some name := by
  have hskip : ∀ d ∈ gap, (!isWordChar d) = true := fun d hd => by
    cases hword : isWordChar d with
    | false => rfl
    | true =>
      have := hgap d hd
      rw [isBlank_of_isWordChar hword] at this
      cases this
  have hstops : Stops (!isWordChar ·) (name ++ rest) := by
    obtain ⟨d, name, rfl⟩ := List.exists_cons_of_ne_nil hne
    rw [List.cons_append, stops_cons, hname d List.mem_cons_self]
    rfl
  unfold firstWord?
  dsimp only
  rw [dropWhile_run hskip hstops, takeWhile_run hname hrest, if_neg (by simpa using hne)]

/-! ## Arguments -/

/-- Behind an argument stands a comma, a bar or nothing, maybe after blanks. -/
def Ended (tail : List Char) : Prop := ∀ c ∈ (trimLeft tail).head?, c = ',' ∨ c = '|'

theorem Ended.of_gap (hgap : IsGap gap) (hs : ∀ c ∈ s.head?, c = ',' ∨ c = '|') : Ended (gap ++ s) := by
  have hstops : Stops isBlank s := by
    intro c hc
    rcases hs c hc with rfl | rfl <;> decide
  rwa [Ended, trimLeft_gap hgap, trimLeft_of_stops hstops]

theorem Ended.stops_isInner {tail : List Char} (h : Ended tail) : Stops isInner tail := by
  cases tail with
  | nil => exact stops_nil
  | cons c rest =>
    rw [stops_cons]
    cases hblank : isBlank c with
    | true => simp [isInner, hblank]
    | false =>
      have hc := h c (by rw [trimLeft_of_stops (stops_cons.mpr hblank)]; rfl)
      rcases hc with rfl | rfl <;> decide

theorem keyword?_append {gap' : List Char} (hword : ∀ c ∈ word, isWordChar c = true) (hne : word ≠ [])
    (hgap : IsGap gap) (hgap' : IsGap gap') (hrest : Stops isBlank rest) :
    keyword? (word ++ (gap ++ ':' :: (gap' ++ rest))) =
      some (word ++ gap ++ ':' :: gap', rest) := by
  have hstops : Stops isWordChar (gap ++ ':' :: (gap' ++ rest)) := by
    cases gap with
    | nil => exact stops_cons.mpr (by decide)
    | cons c gap =>
      refine stops_cons.mpr ?_
      cases hc : isWordChar c with
      | false => rfl
      | true =>
        have := hgap c List.mem_cons_self
        rw [isBlank_of_isWordChar hc] at this
        cases this
  have hcolon : Stops isBlank (':' :: (gap' ++ rest)) := stops_cons.mpr (by decide)
  unfold keyword?
  dsimp only
  rw [takeWhile_run hword hstops, dropWhile_run hword hstops, takeWhile_run hgap hcolon,
    dropWhile_run hgap hcolon]
  show (if word.isEmpty = true then none
    else some (word ++ gap ++ ':' :: (gap' ++ rest).takeWhile isBlank,
      (gap' ++ rest).dropWhile isBlank)) = _
  rw [takeWhile_run hgap' hrest, dropWhile_run hgap' hrest, if_neg (by simpa using hne)]

theorem Pieces.drop_run {p r : Char → Bool} {run : List Char} (h : Pieces p (run ++ rest))
    (hrun : ∀ c ∈ run, r c = true) (hr : ∀ c, r c = true → isQuote c = false) : Pieces p rest := by
  induction run with
  | nil => exact h
  | cons c run ih =>
    obtain ⟨hc, hrun⟩ := List.forall_mem_cons.mp hrun
    rw [List.cons_append] at h
    generalize heq : c :: (run ++ rest) = whole at h
    cases h with
    | nil => cases heq
    | char _ ht =>
      obtain ⟨-, rfl⟩ := List.cons.inj heq
      exact ih ht hrun
    | quoted hq _ _ =>
      obtain ⟨rfl, -⟩ := List.cons.inj heq
      rw [hr c hc] at hq
      cases hq

/-- An operand is not taken for a keyword. -/
theorem keyword?_eq_none (ht : Pieces isSolid t) {tail : List Char} (htail : Ended tail) :
    keyword? (t ++ tail) = none := by
  obtain ⟨run, back, rfl, hrun, hback, -, -⟩ := exists_run isWordChar t
  have hpieces : Pieces isSolid back := by
    refine ht.drop_run hrun fun c hc => ?_
    cases hq : isQuote c with
    | false => rfl
    | true => rcases isQuote_iff.mp hq with rfl | rfl <;> exact absurd hc (by decide)
  have htailWord : Stops isWordChar tail :=
    htail.stops_isInner.of_imp fun c hc => isInner_of_isNameChar (by simp [isNameChar, hc])
  have hdrop : (run ++ back ++ tail).dropWhile isWordChar = back ++ tail := by
    rw [List.append_assoc]
    exact dropWhile_run hrun (hback.append fun _ => htailWord)
  unfold keyword?
  dsimp only
  rw [hdrop]
  split
  · next after heq =>
    have hcolon : ((back ++ tail).dropWhile isBlank).head? = some ':' := by rw [heq]; rfl
    cases back with
    | nil => rcases htail ':' hcolon with h | h <;> cases h
    | cons d back =>
      have hd := hpieces.head d rfl
      have hblank : isBlank d = false :=
        hd.elim (fun h => isBlank_of_isPlain (isPlain_of_isSolid h)) isBlank_of_isQuote
      rw [List.cons_append, dropWhile_of_stops (stops_cons.mpr hblank)] at hcolon
      cases hcolon
      rcases hd with h | h <;> exact absurd h (by decide)
  · rfl

/-- The arguments that are found in the text, whatever the fuel. -/
def Finds (s : List Char) (arguments : List (List Char)) : Prop :=
  ∀ fuel, s.length ≤ fuel → argumentsWithin fuel s = arguments

theorem finds_nil : Finds [] [] := fun fuel _ => by cases fuel <;> rfl

theorem Finds.skip {arguments : List (List Char)} (hs : ∀ c ∈ t, c ≠ ':' ∧ c ≠ ',')
    (hfinds : Finds s arguments) : Finds (t ++ s) arguments := by
  induction t with
  | nil => exact hfinds
  | cons c t ih =>
    obtain ⟨⟨hcolon, hcomma⟩, hs⟩ := List.forall_mem_cons.mp hs
    intro fuel hfuel
    rw [List.cons_append, List.length_cons] at hfuel
    obtain ⟨fuel, rfl⟩ := Nat.exists_eq_succ_of_ne_zero (show fuel ≠ 0 by omega)
    rw [List.cons_append, argumentsWithin, if_neg (by simp [hcolon, hcomma])]
    exact ih hs fuel (by omega)

theorem Finds.after_gap {arguments : List (List Char)} (hgap : IsGap gap) (hfinds : Finds s arguments) :
    Finds (gap ++ s) arguments := by
  refine hfinds.skip fun c hc => ?_
  have hblank := hgap c hc
  constructor <;> rintro rfl <;> exact absurd hblank (by decide)

/-- An argument behind a colon or a comma, and those behind it. -/
theorem Finds.argument {arguments : List (List Char)} {a : List Char} (hsep : sep = ':' ∨ sep = ',')
    (hgap : IsGap gap) (ha : Stops isBlank (a ++ s)) (hargument : argument? (a ++ s) = some (a, s))
    (hfinds : Finds s arguments) : Finds (sep :: (gap ++ (a ++ s))) (a :: arguments) := by
  intro fuel hfuel
  simp only [List.length_cons, List.length_append] at hfuel
  obtain ⟨fuel, rfl⟩ := Nat.exists_eq_succ_of_ne_zero (show fuel ≠ 0 by omega)
  rw [argumentsWithin, if_pos (by rcases hsep with rfl | rfl <;> decide), trimLeft_gap hgap,
    trimLeft_of_stops ha, hargument]
  dsimp only
  rw [hfinds fuel (by omega)]

theorem argument?_operand (ht : Operand t) {tail : List Char} (htail : Ended tail) :
    argument? (t ++ tail) = some (t, tail) := by
  unfold argument?
  dsimp only
  rw [keyword?_eq_none ht.pieces htail, ht.at?_eq (.inl htail.stops_isInner)]

theorem argument?_keyword {gap' : List Char} (hword : ∀ c ∈ word, isWordChar c = true) (hne : word ≠ [])
    (hgap : IsGap gap) (hgap' : IsGap gap') (ht : Operand t) {tail : List Char} (htail : Ended tail) :
    argument? (word ++ (gap ++ ':' :: (gap' ++ t)) ++ tail) =
      some (word ++ (gap ++ ':' :: (gap' ++ t)), tail) := by
  have hkeyword := keyword?_append hword hne hgap hgap' (ht.stops_isBlank tail)
  unfold argument?
  dsimp only
  rw [show word ++ (gap ++ ':' :: (gap' ++ t)) ++ tail = word ++ (gap ++ ':' :: (gap' ++ (t ++ tail))) by
    simp, hkeyword]
  dsimp only
  rw [ht.at?_eq (.inl htail.stops_isInner)]
  simp

/-! ## Attributes -/

/-- A keyword argument is one attribute from end to end, whatever blanks stand around its colon. -/
theorem wholeAttribute?_keyword {gap' : List Char} (hword : ∀ c ∈ word, isWordChar c = true)
    (hne : word ≠ []) (hgap : IsGap gap) (hgap' : IsGap gap') (ht : Operand t) :
    wholeAttribute? (trim (word ++ (gap ++ ':' :: (gap' ++ t)))) = some (word, t) := by
  obtain ⟨c, word, rfl⟩ := List.exists_cons_of_ne_nil hne
  obtain ⟨hc, hnames⟩ := List.forall_mem_cons.mp hword
  have htrim : trim (c :: word ++ (gap ++ ':' :: (gap' ++ t))) =
      c :: word ++ (gap ++ ':' :: (gap' ++ t)) := by
    refine trim_of_ends (stops_cons.mpr (isBlank_of_isWordChar hc)) fun d hd => ?_
    rw [show c :: word ++ (gap ++ ':' :: (gap' ++ t)) = (c :: word ++ (gap ++ ':' :: gap')) ++ t by simp,
      List.getLast?_append_of_ne_nil _ ht.nonempty] at hd
    exact (ht.runs.getLast d hd).elim isBlank_of_isPlain isBlank_of_isQuote
  have hname : ∀ d ∈ word, isNameChar d = true := fun d hd => by simp [isNameChar, hnames d hd]
  have hstops : Stops isNameChar (gap ++ ':' :: (gap' ++ t)) := by
    cases gap with
    | nil => exact stops_cons.mpr (by decide)
    | cons d gap =>
      refine stops_cons.mpr ?_
      cases hd : isNameChar d with
      | false => rfl
      | true =>
        have := hgap d List.mem_cons_self
        rw [isBlank_of_isNameChar hd] at this
        cases this
  have hvalue : run? t = some (t, []) := by
    have := run?_append ht.runs ht.nonempty stops_nil
    rwa [List.append_nil] at this
  have hcolon : trimLeft (gap ++ ':' :: (gap' ++ t)) = ':' :: (gap' ++ t) := by
    rw [trimLeft_gap hgap, trimLeft_of_stops (stops_cons.mpr (by decide))]
  have hback : trimLeft (gap' ++ t) = t := by
    have := ht.stops_isBlank []
    rw [List.append_nil] at this
    rw [trimLeft_gap hgap', trimLeft_of_stops this]
  rw [htrim, List.cons_append]
  unfold wholeAttribute?
  dsimp only
  rw [if_pos hc, dropWhile_run hname hstops, takeWhile_run hname hstops, hcolon]
  simp [hback, hvalue]

/-- An operand is no attribute: behind a name in front there is no colon. -/
theorem wholeAttribute?_operand (ht : Operand t) : wholeAttribute? t = none := by
  obtain ⟨c, rest, rfl⟩ := List.exists_cons_of_ne_nil ht.nonempty
  obtain ⟨run, back, rfl, hrun, -, -, hdrop⟩ := exists_run isNameChar rest
  unfold wholeAttribute?
  dsimp only
  split
  · next hc =>
    have hnames : ∀ d ∈ c :: run, isNameChar d = true :=
      List.forall_mem_cons.mpr ⟨by simp [isNameChar, hc], hrun⟩
    have hpieces : Pieces isSolid back := by
      refine @Pieces.drop_run _ _ isNameChar (c :: run) ht.pieces hnames fun d hd => ?_
      exact (isPlain_iff.mp (isPlain_of_isSolid (isSolid_of_isNameChar hd))).2
    rw [hdrop]
    cases back with
    | nil => rfl
    | cons d back =>
      have hd := hpieces.head d rfl
      have hblank : isBlank d = false :=
        hd.elim (fun h => isBlank_of_isPlain (isPlain_of_isSolid h)) isBlank_of_isQuote
      rw [trimLeft_of_stops (stops_cons.mpr hblank)]
      split
      · next heq =>
        obtain ⟨rfl, -⟩ := List.cons.inj heq
        exact absurd hd (by decide)
      · rfl
  · rfl

end Fragment

/-! ## Bars -/

theorem Pipeline.afterBar?_gap {gap : List Char} (hgap : IsGap gap) (s : List Char) :
    afterBar? (gap ++ s) = afterBar? s := by
  induction gap with
  | nil => rfl
  | cons c gap ih =>
    obtain ⟨hc, hgap⟩ := isGap_cons.mp hgap
    have hbar : c ≠ '|' := by
      rintro rfl
      exact absurd hc (by decide)
    rw [List.cons_append, afterBar?, if_neg (by simpa using hbar), ih hgap]

end Stencil
