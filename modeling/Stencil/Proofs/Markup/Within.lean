import Stencil.Proofs.Markup.Chunks
import Stencil.Tree.Pipeline

/-!
# What the tolerant grammar finds stands in the markup

Every operand, argument, attribute and part that the tolerant grammar finds in a markup is a stretch of its
characters as they stand there. So a property of texts that all their stretches have passes from a markup to
all that is read of it.
-/

namespace Stencil

open Text

/-! ## Blanks at the ends -/

namespace Text

theorem trimLeft_suffix (s : List Char) : trimLeft s <:+ s := List.dropWhile_suffix _

/-- What stands behind something at the front, blanks aside, stands at the end. -/
theorem suffix_of_trimLeft {s behind : List Char} (front : List Char) (h : trimLeft s = front ++ behind) :
    behind <:+ s :=
  (List.suffix_append front behind).trans (h ▸ trimLeft_suffix s)

theorem trimRight_isPrefix (s : List Char) : trimRight s <+: s := by
  induction s with
  | nil => exact List.prefix_refl _
  | cons c rest ih =>
    unfold trimRight
    split
    · split
      · exact List.nil_prefix
      · exact List.cons_prefix_cons.mpr ⟨rfl, List.nil_prefix⟩
    · exact List.cons_prefix_cons.mpr ⟨rfl, ih⟩

theorem trim_isInfix (s : List Char) : trim s <:+: s :=
  (trimRight_isPrefix _).isInfix.trans (trimLeft_suffix s).isInfix

end Text

namespace Fragment

variable {s t after : List Char}

/-- The text stands somewhere in `s`, and `after` is all that follows it. -/
def Found (s t after : List Char) : Prop := ∃ front, s = front ++ (t ++ after)

theorem Found.within (h : Found s t after) : t <:+: s := by
  obtain ⟨front, rfl⟩ := h
  exact ⟨front, after, List.append_assoc ..⟩

theorem Found.rest (h : Found s t after) : after <:+ s := by
  obtain ⟨front, rfl⟩ := h
  exact ⟨front ++ t, List.append_assoc ..⟩

theorem found_of_eq (h : s = t ++ after) : Found s t after := ⟨[], h⟩

/-- What stands behind the blanks in front stands in the text. -/
theorem Found.of_suffix {rest : List Char} (h : Found rest t after) (hrest : rest <:+ s) :
    Found s t after := by
  obtain ⟨front, rfl⟩ := h
  obtain ⟨before, rfl⟩ := hrest
  exact ⟨before ++ front, List.append_assoc .. |>.symm⟩

/-! ## Fragments -/

theorem piece?_eq_some (h : piece? s = some (t, after)) : s = t ++ after := by
  unfold piece? at h
  split at h
  · cases h
  · split at h
    · cases h
      rfl
    · exact (Lexeme.quoted?_eq_some h).1

theorem piecesWithin_eq (fuel : Nat) (s : List Char) :
    (piecesWithin fuel s).1.flatten ++ (piecesWithin fuel s).2 = s := by
  induction fuel generalizing s with
  | zero => rfl
  | succ fuel ih =>
    unfold piecesWithin
    split
    · rfl
    · next piece rest hpiece =>
      dsimp only
      rw [List.flatten_cons, List.append_assoc, ih, piece?_eq_some hpiece]

theorem run?_eq_some (h : run? s = some (t, after)) : s = t ++ after := by
  unfold run? run at h
  dsimp only at h
  split at h
  · cases h
  · cases h
    exact (piecesWithin_eq _ s).symm

theorem at?_eq_some (h : at? s = some (t, after)) : s = t ++ after := by
  unfold at? at h
  rcases Option.or_eq_some_iff.mp h with hquoted | ⟨-, hrun⟩
  · exact (Lexeme.quoted?_eq_some hquoted).1
  · exact run?_eq_some hrun

theorem found_of_first? (h : first? s = some (t, after)) : Found s t after := by
  induction s with
  | nil => cases h
  | cons c rest ih =>
    unfold first? at h
    rcases Option.or_eq_some_iff.mp h with hhere | ⟨-, hrest⟩
    · exact found_of_eq (at?_eq_some hhere)
    · exact (ih hrest).of_suffix (List.suffix_cons c rest)

/-! ## Attributes -/

variable {key value : List Char}

theorem found_of_attributeAt? (h : attributeAt? s = some ((key, value), after)) :
    Found s value after := by
  unfold attributeAt? at h
  split at h
  · cases h
  · next c rest =>
    split at h
    · split at h
      · next behind hcolon =>
        obtain ⟨⟨t, tail⟩, hat, heq⟩ := Option.map_eq_some_iff.mp h
        cases heq
        have hbehind : behind <:+ c :: rest := (suffix_of_trimLeft [':'] hcolon).trans
          ((List.dropWhile_suffix _).trans (List.suffix_cons c rest))
        exact (found_of_eq (at?_eq_some hat)).of_suffix ((trimLeft_suffix _).trans hbehind)
      · cases h
    · cases h

theorem within_of_mem_attributes {pair : List Char × List Char} (h : pair ∈ attributes s) :
    pair.2 <:+: s := by
  unfold attributes at h
  generalize s.length = fuel at h
  induction fuel generalizing s with
  | zero => cases h
  | succ fuel ih =>
    cases s with
    | nil => cases h
    | cons c rest =>
      unfold attributesWithin at h
      split at h
      · next found behind hattribute =>
        have hfound := found_of_attributeAt? hattribute
        rcases List.mem_cons.mp h with rfl | h
        · exact hfound.within
        · exact (ih h).trans hfound.rest.isInfix
      · exact (ih h).trans (List.suffix_cons c rest).isInfix

theorem within_of_wholeAttribute? (h : wholeAttribute? s = some (key, value)) : value <:+: s := by
  unfold wholeAttribute? at h
  split at h
  · cases h
  · next c rest =>
    split at h
    · split at h
      · next behind hcolon =>
        split at h
        · next hrun =>
          cases h
          have hbehind : behind <:+ c :: rest := (suffix_of_trimLeft [':'] hcolon).trans
            ((List.dropWhile_suffix _).trans (List.suffix_cons c rest))
          exact ((found_of_eq (run?_eq_some hrun)).of_suffix
            ((trimLeft_suffix _).trans hbehind)).within
        · cases h
      · cases h
    · cases h

/-! ## Filter calls -/

theorem stretchWithin_eq (fuel : Nat) (s : List Char) :
    (stretchWithin fuel s).1 ++ (stretchWithin fuel s).2 = s := by
  induction fuel generalizing s with
  | zero => rfl
  | succ fuel ih =>
    cases s with
    | nil => rfl
    | cons c rest =>
      unfold stretchWithin
      split
      · rfl
      · split
        · split
          · next text behind hquoted =>
            dsimp only
            rw [List.append_assoc, ih, (Lexeme.quoted?_eq_some hquoted).1]
          · rfl
        · dsimp only
          rw [List.cons_append, ih]

theorem within_of_mem_stretches (h : t ∈ stretches s) : t <:+: s := by
  unfold stretches at h
  generalize s.length = fuel at h
  induction fuel generalizing s with
  | zero => cases h
  | succ fuel ih =>
    cases s with
    | nil => cases h
    | cons c rest =>
      unfold stretchesWithin at h
      have hsplit := stretchWithin_eq (rest.length + 1) (c :: rest)
      split at h
      · exact (ih h).trans (List.suffix_cons c rest).isInfix
      · next stretch behind _ hstretch =>
        rw [hstretch] at hsplit
        have hfound := found_of_eq hsplit.symm
        rcases List.mem_cons.mp h with rfl | h
        · exact hfound.within
        · exact (ih h).trans hfound.rest.isInfix

theorem keyword?_eq_some (h : keyword? s = some (t, after)) : s = t ++ after := by
  unfold keyword? at h
  dsimp only at h
  split at h
  · next behind hcolon =>
    split at h
    · cases h
    · cases h
      have hbehind : behind = behind.takeWhile isBlank ++ behind.dropWhile isBlank :=
        List.takeWhile_append_dropWhile.symm
      have hrest : s.dropWhile isWordChar =
          (s.dropWhile isWordChar).takeWhile isBlank ++ ':' :: behind := by
        rw [← hcolon, List.takeWhile_append_dropWhile]
      calc s = s.takeWhile isWordChar ++ s.dropWhile isWordChar :=
            List.takeWhile_append_dropWhile.symm
        _ = _ := by
          rw [hrest]
          conv => lhs; rw [hbehind]
          simp only [List.append_assoc, List.cons_append, ← hrest]
  · cases h

theorem argument?_eq_some (h : argument? s = some (t, after)) : s = t ++ after := by
  unfold argument? at h
  dsimp only at h
  split at h
  · next keyword behind hkeyword =>
    rcases Option.or_eq_some_iff.mp h with h | ⟨-, h⟩
    · obtain ⟨⟨value, tail⟩, hvalue, heq⟩ := Option.map_eq_some_iff.mp h
      cases heq
      rw [keyword?_eq_some hkeyword, at?_eq_some hvalue, List.append_assoc]
    · exact at?_eq_some h
  · exact at?_eq_some h

theorem within_of_mem_arguments (h : t ∈ arguments s) : t <:+: s := by
  unfold arguments at h
  generalize s.length = fuel at h
  induction fuel generalizing s with
  | zero => cases h
  | succ fuel ih =>
    cases s with
    | nil => cases h
    | cons c rest =>
      have hrest : rest <:+ c :: rest := List.suffix_cons c rest
      unfold argumentsWithin at h
      split at h
      · split at h
        · next argument behind hargument =>
          have hfound := (found_of_eq (argument?_eq_some hargument)).of_suffix
            ((trimLeft_suffix rest).trans hrest)
          rcases List.mem_cons.mp h with rfl | h
          · exact hfound.within
          · exact (ih h).trans hfound.rest.isInfix
        · exact (ih h).trans hrest.isInfix
      · exact (ih h).trans hrest.isInfix

theorem suffix_of_afterBar? (h : Pipeline.afterBar? s = some after) : after <:+ s := by
  induction s with
  | nil => cases h
  | cons c rest ih =>
    unfold Pipeline.afterBar? at h
    split at h
    · cases h
      exact (trimLeft_suffix rest).trans (List.suffix_cons c rest)
    · exact (ih h).trans (List.suffix_cons c rest)

/-! ## Conditions -/

theorem operand_eq (s : List Char) : (operand s).1 ++ (operand s).2 = s := by
  unfold operand
  cases hat : at? s with
  | none => exact List.takeWhile_append_dropWhile
  | some found => exact (at?_eq_some hat).symm

theorem conditionWithin_eq (fuel : Nat) (s : List Char) :
    (conditionWithin fuel s).1 ++ (conditionWithin fuel s).2 = s := by
  induction fuel generalizing s with
  | zero => rfl
  | succ fuel ih =>
    have hgap : s.takeWhile isBlank ++ s.dropWhile isBlank = s := List.takeWhile_append_dropWhile
    unfold conditionWithin
    dsimp only
    split
    · exact hgap
    · dsimp only
      rw [List.append_assoc, ih, List.append_assoc, operand_eq, hgap]

theorem within_of_mem_conditions (h : t ∈ conditions s) : t <:+: s := by
  unfold conditions at h
  generalize s.length + 1 = fuel at h
  induction fuel generalizing s with
  | zero => cases h
  | succ fuel ih =>
    have hbody := trimLeft_suffix s
    unfold conditionsWithin at h
    dsimp only at h
    split at h
    · cases h
    · split at h
      · next word rest hword =>
        have hfound := (found_of_eq (relation?_eq_some_iff.mp hword).2.1).of_suffix hbody
        rcases List.mem_cons.mp h with rfl | h
        · exact hfound.within
        · exact (ih h).trans hfound.rest.isInfix
      · have hfound := (found_of_eq
          (conditionWithin_eq ((trimLeft s).length + 1) (trimLeft s)).symm).of_suffix hbody
        rcases List.mem_cons.mp h with rfl | h
        · exact hfound.within
        · exact (ih h).trans hfound.rest.isInfix

theorem within_of_comparison? {left : List Char} {operator right : Option (List Char)}
    (h : comparison? s = some (left, operator, right)) :
    left <:+: s ∧ ∀ t ∈ right, t <:+: s := by
  obtain ⟨⟨found, rest⟩, hfirst, heq⟩ := Option.map_eq_some_iff.mp h
  cases heq
  have hfound := found_of_first? hfirst
  refine ⟨hfound.within, fun t ht => ?_⟩
  obtain ⟨⟨text, behind⟩, hat, rfl⟩ := Option.map_eq_some_iff.mp (Option.mem_def.mp ht)
  have hrest : trimLeft ((trimLeft rest).dropWhile isOperatorChar) <:+ s :=
    ((trimLeft_suffix _).trans (List.dropWhile_suffix _)).trans
      ((trimLeft_suffix rest).trans hfound.rest)
  exact ((found_of_eq (at?_eq_some hat)).of_suffix hrest).within

/-! ## Heads of tags -/

theorem targetWithin_eq (fuel : Nat) (s : List Char) :
    (targetWithin fuel s).1 ++ (targetWithin fuel s).2 = s := by
  have hclose (s : List Char) : (closeRound s).1 ++ (closeRound s).2 = s := by
    unfold closeRound
    split <;> rfl
  induction fuel generalizing s with
  | zero => rfl
  | succ fuel ih =>
    cases s with
    | nil => rfl
    | cons c rest =>
      unfold targetWithin
      split
      · split
        · split
          · dsimp only
            rw [List.cons_append, List.cons_append, List.cons_append, List.cons_append,
              List.append_assoc, ih, hclose]
          · rfl
        · rfl
      · split
        · dsimp only
          rw [List.cons_append, List.cons_append, List.append_assoc, ih, hclose]
        · rfl

theorem suffix_of_assignment? {target : List Char} (h : assignment? s = some (target, after)) :
    after <:+ s := by
  induction s with
  | nil => cases h
  | cons c rest ih =>
    have hrest : rest <:+ c :: rest := List.suffix_cons c rest
    have htarget := targetWithin_eq (c :: rest).length (c :: rest)
    unfold assignment? at h
    split at h
    · exact (ih h).trans hrest
    · next name behind _ hname =>
      split at h
      · next source hequals =>
        cases h
        rw [show targetWithin (c :: rest).length (c :: rest) = _ from hname] at htarget
        have hbehind : source <:+ behind := suffix_of_trimLeft ['='] hequals
        exact (trimLeft_suffix source).trans (hbehind.trans ⟨target, htarget⟩)
      · exact (ih h).trans hrest

theorem suffix_of_separator? (h : separator? s = some after) : after <:+ s := by
  unfold separator? at h
  dsimp only at h
  split at h
  · next rest heq =>
    cases h
    exact (trimLeft_suffix rest).trans (suffix_of_trimLeft [','] heq)
  · next rest heq =>
    split at h
    · cases h
      exact (trimLeft_suffix rest).trans (suffix_of_trimLeft ['o', 'r'] heq)
    · cases h
  · cases h

theorem within_of_mem_alternatives (h : t ∈ alternatives s) : t <:+: s := by
  unfold alternatives at h
  generalize s.length + 1 = fuel at h
  induction fuel generalizing s with
  | zero => cases h
  | succ fuel ih =>
    unfold alternativesWithin at h
    split at h
    · cases h
    · next value rest hfirst =>
      have hfound := found_of_first? hfirst
      split at h
      · next next hnext =>
        have hseparator := suffix_of_separator? (Option.filter_eq_some_iff.mp hnext).1
        rcases List.mem_cons.mp h with rfl | h
        · exact hfound.within
        · exact (ih h).trans (hseparator.trans hfound.rest).isInfix
      · cases List.mem_singleton.mp h
        exact hfound.within

theorem suffix_of_afterIn? (h : afterIn? s = some after) : after <:+ s := by
  unfold afterIn? at h
  dsimp only at h
  split at h
  · next rest heq =>
    split at h
    · cases h
      exact (trimLeft_suffix rest).trans (suffix_of_trimLeft ['i', 'n'] heq)
    · cases h
  · cases h

/-- What is gone through behind a variable stands in the text. -/
theorem within_of_afterIn? {target rest collection behind : List Char} (htarget : target <:+ s)
    (hin : afterIn? target = some rest) (hrun : run? rest = some (collection, behind)) : collection <:+: s :=
  ((found_of_eq (run?_eq_some hrun)).of_suffix ((suffix_of_afterIn? hin).trans htarget)).within

theorem within_of_loopHeader? {name collection : List Char} {reversed : Bool}
    (h : loopHeader? s = some (name, collection, reversed)) : collection <:+: s := by
  unfold loopHeader? at h
  dsimp only at h
  split at h
  · cases h
  · obtain ⟨rest, hin, h⟩ := Option.bind_eq_some_iff.mp h
    obtain ⟨⟨found, behind⟩, hrun, heq⟩ := Option.bind_eq_some_iff.mp h
    cases heq
    exact within_of_afterIn? (List.dropWhile_suffix _) hin hrun

theorem within_of_tableHeader? {name collection : List Char}
    (h : tableHeader? s = some (name, collection)) : collection <:+: s := by
  induction s with
  | nil => cases h
  | cons c rest ih =>
    unfold tableHeader? at h
    rcases Option.or_eq_some_iff.mp h with h | ⟨-, h⟩
    · unfold tableHeaderAt? at h
      dsimp only at h
      split at h
      · cases h
      · obtain ⟨rest, hin, h⟩ := Option.bind_eq_some_iff.mp h
        obtain ⟨⟨found, behind⟩, hrun, heq⟩ := Option.bind_eq_some_iff.mp h
        cases heq
        exact within_of_afterIn? (List.dropWhile_suffix _) hin hrun
    · exact (ih h).trans (List.suffix_cons c rest).isInfix

/-! ## Cycles -/

theorem found_of_lastColon? {pieces : List (List Char)} {group values : List Char}
    (h : namedCycle?.lastColon? pieces = some (group, values)) :
    pieces.flatten = group ++ ':' :: values := by
  unfold namedCycle?.lastColon? at h
  split at h
  · next colon front hfront =>
    split at h
    · cases h
    · cases h
      have hcolon : colon = [':'] := by
        have hnot := List.head?_dropWhile_not (· != [':']) pieces.reverse
        rw [hfront] at hnot
        simpa using hnot
      -- counted from the end, the pieces behind the colon come first
      have hsplit : pieces.reverse.takeWhile (· != [':']) ++ colon :: front = pieces.reverse := by
        rw [← hfront, List.takeWhile_append_dropWhile]
      generalize pieces.reverse.takeWhile (· != [':']) = behind at hsplit
      obtain rfl : pieces = front.reverse ++ [':'] :: behind.reverse := by
        rw [← List.reverse_inj, ← hsplit, hcolon]
        simp
      have hdrop : (front.reverse ++ [':'] :: behind.reverse).drop (front.length + 1) = behind.reverse := by
        rw [List.drop_append, List.drop_of_length_le (by simp), List.length_reverse,
          Nat.add_sub_cancel_left, List.nil_append]
        rfl
      rw [hdrop, List.flatten_append]
      rfl
  · cases h

/-- A group in front of a colon stands in the text, and so does what follows the colon. -/
theorem within_of_colon {group rest : List Char} {found : List Char × List Char} (hs : s = group ++ rest)
    (h : (match trimLeft rest with
      | ':' :: behind => some (trimLeft behind)
      | _ => none).map (group, ·) = some found) : found.1 <:+: s ∧ found.2 <:+: s := by
  obtain ⟨values, hvalues, rfl⟩ := Option.map_eq_some_iff.mp h
  split at hvalues
  · next behind heq =>
    cases hvalues
    have hrest : trimLeft behind <:+ rest :=
      (trimLeft_suffix behind).trans (suffix_of_trimLeft [':'] heq)
    exact ⟨(found_of_eq hs).within, (hrest.trans (found_of_eq hs).rest).isInfix⟩
  · cases hvalues

theorem within_of_namedCycle? {group values : List Char} (h : namedCycle? s = some (group, values)) :
    group <:+: s ∧ values <:+: s := by
  unfold namedCycle? at h
  dsimp only at h
  have hpieces := piecesWithin_eq s.length s
  rcases Option.or_eq_some_iff.mp h with h | ⟨-, h⟩
  · rcases Option.or_eq_some_iff.mp h with h | ⟨-, h⟩
    · obtain ⟨⟨name, rest⟩, hquoted, h⟩ := Option.bind_eq_some_iff.mp h
      exact within_of_colon (Lexeme.quoted?_eq_some hquoted).1 h
    · split at h
      · cases h
      · exact within_of_colon hpieces.symm h
  · obtain ⟨⟨name, rest⟩, hlast, heq⟩ := Option.map_eq_some_iff.mp h
    cases heq
    have hs : s = name ++ ':' :: (rest ++ (piecesWithin s.length s).2) := by
      rw [← List.cons_append, ← List.append_assoc, ← found_of_lastColon? hlast, hpieces]
    refine ⟨(found_of_eq hs).within, ?_⟩
    exact ((trimLeft_suffix _).trans
      ((List.suffix_cons ':' _).trans (found_of_eq hs).rest)).isInfix

/-- The parts between separators stand in the text. -/
theorem within_of_mem_splitOnP {p : Char → Bool} (h : t ∈ s.splitOnP p) : t <:+: s := by
  -- the first part stands in front
  have hparts (s : List Char) : ∃ first others, s.splitOnP p = first :: others ∧ first <+: s ∧
      ∀ t ∈ others, t <:+: s := by
    induction s with
    | nil => exact ⟨[], [], List.splitOnP_nil, List.prefix_refl _, fun _ ht => nomatch ht⟩
    | cons c rest ih =>
      obtain ⟨first, others, hsplit, hfirst, hothers⟩ := ih
      have hrest : rest <:+: c :: rest := (List.suffix_cons c rest).isInfix
      rw [List.splitOnP_cons_eq_if_modifyHead, hsplit]
      split
      · refine ⟨[], first :: others, rfl, List.nil_prefix, ?_⟩
        exact List.forall_mem_cons.mpr
          ⟨hfirst.isInfix.trans hrest, fun t ht => (hothers t ht).trans hrest⟩
      · exact ⟨c :: first, others, rfl, List.cons_prefix_cons.mpr ⟨rfl, hfirst⟩,
          fun t ht => (hothers t ht).trans hrest⟩
  obtain ⟨first, others, hsplit, hfirst, hothers⟩ := hparts s
  rw [hsplit] at h
  rcases List.mem_cons.mp h with rfl | h
  · exact hfirst.isInfix
  · exact hothers t h

theorem within_of_mem_cycleValues (h : t ∈ cycleValues s) : t <:+: s := by
  obtain ⟨part, hpart, hfirst⟩ := List.mem_filterMap.mp h
  obtain ⟨⟨found, behind⟩, hfound, rfl⟩ := Option.map_eq_some_iff.mp hfirst
  exact (found_of_first? hfound).within.trans (within_of_mem_splitOnP hpart)

end Fragment

end Stencil
