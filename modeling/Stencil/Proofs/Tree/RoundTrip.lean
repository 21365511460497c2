import Stencil.Proofs.Tree.CanonicalCondition
import Stencil.Proofs.Tree.CanonicalPipeline
import Stencil.Proofs.Tree.Grammar
import Stencil.Tree.Item

/-!
# Canonical texts are read back

Alternatives of a case in their canonical form are found one by one (`Alternatives.alternatives_chars`),
and each is recorded as a comparison with the subject (`Alternatives.takePart_chars`). Together with
pipelines and conditions: what is written in its canonical form is read as what it was written for, in
both grammars (`canonical_texts_read_back`).
-/

namespace Stencil

open Text

/-! ## Separators -/

namespace Fragment

variable {s : List Char}

theorem trimLeft_blank (hs : Stops isBlank s) : trimLeft (' ' :: s) = s := by
  have hgap : IsGap [' '] := isGap_cons.mpr ⟨by decide, isGap_nil⟩
  rw [← List.singleton_append, trimLeft_gap hgap, trimLeft_of_stops hs]

theorem separator?_comma (hs : Stops isBlank s) : separator? (',' :: ' ' :: s) = some s := by
  have hcomma : trimLeft (',' :: ' ' :: s) = ',' :: ' ' :: s :=
    trimLeft_of_stops (stops_cons.mpr (by decide))
  rw [separator?, hcomma]
  exact congrArg some (trimLeft_blank hs)

theorem separator?_word (hs : Stops isBlank s) :
    separator? (' ' :: 'o' :: 'r' :: ' ' :: s) = some s := by
  have hword : trimLeft (' ' :: 'o' :: 'r' :: ' ' :: s) = 'o' :: 'r' :: ' ' :: s :=
    trimLeft_blank (stops_cons.mpr (by decide))
  rw [separator?, hword]
  show (if _ then some (trimLeft (' ' :: s)) else none) = some s
  rw [trimLeft_blank hs]
  exact if_pos (by simp; decide)

end Fragment

namespace Canonical

/-! ## Alternatives -/

/-- What stands between two alternatives. -/
inductive Separator where
  | comma | word

/-- Alternatives with what stands in front of each further one. -/
structure Alternatives where
  first : Expression
  others : List (Separator × Expression)

def Separator.chars : Separator → List Char
  | comma => [',', ' ']
  | word => [' ', 'o', 'r', ' ']

namespace Alternatives

def laterChars (others : List (Separator × Expression)) : List Char :=
  others.flatMap fun other => other.1.chars ++ other.2.chars

def chars (a : Alternatives) : List Char := a.first.chars ++ laterChars a.others

def values (a : Alternatives) : List Expression := a.first :: a.others.map (·.2)

/-- Behind an alternative the text ends, or a separator follows. -/
theorem stops_laterChars (others : List (Separator × Expression)) :
    Stops Fragment.isInner (laterChars others) := by
  cases others with
  | nil => exact stops_nil
  | cons other others =>
    obtain ⟨sep, e⟩ := other
    cases sep <;> exact stops_cons.mpr (by decide)

theorem separator?_chars (sep : Separator) {s : List Char} (hs : Stops isBlank s) :
    Fragment.separator? (sep.chars ++ s) = some s := by
  cases sep with
  | comma => exact Fragment.separator?_comma hs
  | word => exact Fragment.separator?_word hs

/-- The alternatives are found one by one. -/
theorem alternativesWithin_chars (first : Expression) (others : List (Separator × Expression)) {fuel : Nat}
    (hfuel : (first.chars ++ laterChars others).length < fuel) :
    Fragment.alternativesWithin fuel (first.chars ++ laterChars others) =
      (first :: others.map (·.2)).map (·.chars) := by
  have hat (e : Expression) (others : List (Separator × Expression)) :
      Fragment.at? (e.chars ++ laterChars others) = some (e.chars, laterChars others) :=
    e.operand.at?_eq (.inl (stops_laterChars others))
  -- induction on the alternatives behind the first one; the text gets shorter, so fuel is left
  induction others generalizing first fuel with
  | nil =>
    obtain ⟨fuel, rfl⟩ := Nat.exists_eq_succ_of_ne_zero (Nat.ne_of_gt (Nat.zero_lt_of_lt hfuel))
    rw [Fragment.alternativesWithin, Fragment.first?_of_at? (hat first [])]
    rfl
  | cons other others ih =>
    obtain ⟨sep, e⟩ := other
    obtain ⟨fuel, rfl⟩ := Nat.exists_eq_succ_of_ne_zero (Nat.ne_of_gt (Nat.zero_lt_of_lt hfuel))
    have hlater : laterChars ((sep, e) :: others) = sep.chars ++ (e.chars ++ laterChars others) := by
      simp [laterChars]
    have hseparator := separator?_chars sep (e.operand.stops_isBlank (laterChars others))
    have hshorter : (e.chars ++ laterChars others).length < fuel := by
      have := List.length_pos_iff.mpr first.operand.nonempty
      rw [hlater] at hfuel
      simp only [List.length_append] at hfuel ⊢
      omega
    have hnext : (Fragment.at? (e.chars ++ laterChars others)).isSome = true := by
      rw [hat]
      rfl
    rw [Fragment.alternativesWithin, Fragment.first?_of_at? (hat first _)]
    dsimp only
    rw [hlater, hseparator, Option.filter_some, if_pos hnext]
    exact congrArg _ (ih e hshorter)

/-- **The alternatives in the text are the ones that it was written for.** -/
theorem alternatives_chars (a : Alternatives) :
    Fragment.alternatives a.chars = a.values.map (·.chars) :=
  alternativesWithin_chars a.first a.others (Nat.lt_succ_self _)

theorem mapM_read_chars (es : List Expression) :
    (es.map (·.chars)).mapM Expr.read = .ok (es.map (·.toExpr)) := by
  induction es with
  | nil => rfl
  | cons e es ih =>
    rw [List.map_cons, List.mapM_cons]
    exact bind_eq_ok_iff.mpr ⟨_, e.read_chars, bind_eq_ok_iff.mpr ⟨_, ih, rfl⟩⟩

/-- The comparison of the subject of a case with an alternative, in front of a body. -/
def condition (subject : Expr) (body : Body) (e : Expression) : Item :=
  .condition (.single { left := subject, operator := some "==", right := e.toExpr }) (some body)

theorem ofParts_startPart (f : Frame) (subject : Expr) (values : List Expr) (nodes : List Node) :
    Item.ofParts { ({ f with opening := .case subject }.startPart (.alternatives values)) with
        nodes := nodes }.finish =
      Item.ofParts { f with opening := .case subject }.finish ++
        Item.ofClause subject (some values, nodes.reverse) := by
  let parts := ((f.guard, f.nodes.reverse) :: f.parts).reverse
  have hparts : parts ≠ [] := by simp [parts]
  have hall : { ({ f with opening := .case subject }.startPart (.alternatives values)) with
      nodes := nodes }.allParts = parts ++ [(.alternatives values, nodes.reverse)] := List.reverse_cons
  show .expr subject :: (List.map Frame.clause (Frame.allParts _).tail).flatMap (Item.ofClause subject) =
    (.expr subject :: (parts.tail.map Frame.clause).flatMap (Item.ofClause subject)) ++ _
  rw [hall, List.tail_append_of_ne_nil hparts, List.map_append, List.flatMap_append, List.cons_append]
  simp [Frame.clause]

/-- **Each alternative is recorded as a comparison with the subject**, behind what was recorded before:
the tag starts a part of the case, and whatever nodes the part gets stand behind the comparisons. -/
theorem takePart_chars (a : Alternatives) (options : ParseOptions) (b : Builder) (f : Frame)
    (outer : List Frame) (subject : Expr) (line : Option Nat) : ∃ f' : Frame,
      b.takePart options { f with opening := .case subject } outer "when" line a.chars =
        pure { b with frames := f' :: outer } ∧
      ∀ nodes, Item.ofParts { f' with nodes := nodes }.finish =
        Item.ofParts { f with opening := .case subject }.finish ++
          a.values.map (condition subject nodes.reverse) := by
  have hends : ¬ ("when" == Complaint.delimiter f.tag.name) = true := by
    rw [beq_iff_eq]
    exact Complaint.delimiter_ne f.tag.name (by decide)
  have hread : Builder.readPart options { f with opening := .case subject } "when" line a.chars =
      pure (.starts (.alternatives (a.values.map (·.toExpr)))) := by
    unfold Builder.readPart
    dsimp only
    rw [if_neg hends, if_pos (by decide), a.alternatives_chars]
    show (Parsing.ofOutcome _ >>= _) = _
    rw [mapM_read_chars]
    rfl
  refine ⟨{ f with opening := .case subject }.startPart
    (.alternatives (a.values.map Expression.toExpr)), ?_, fun nodes => ?_⟩
  · rw [Builder.takePart, hread, pure_bind]
  · rw [ofParts_startPart, Item.ofClause, List.map_map]
    rfl

end Alternatives

end Canonical

/-! ## All canonical texts -/

/-- **Reading undoes writing.** In both grammars the canonical text of a pipeline or a condition is read
as exactly what it was written for. The canonical text of alternatives starts a part of any open case,
however templates are read, and records one comparison with the subject for each of them, in order. -/
theorem canonical_texts_read_back :
    (∀ p : Canonical.Pipeline,
      Pipeline.readStrict p.chars = .ok p.toPipeline ∧ Pipeline.readLax p.chars = .ok p.toPipeline) ∧
    (∀ c : Canonical.Chain, Condition.readStrict c.chars = .ok c.toCondition ∧
      ∀ tag, Condition.readLax tag c.chars = .ok c.toCondition) ∧
    ∀ (a : Canonical.Alternatives) (options : ParseOptions) (b : Builder) (f : Frame) (outer : List Frame)
      (subject : Expr) (line : Option Nat), ∃ f' : Frame,
        b.takePart options { f with opening := .case subject } outer "when" line a.chars =
          pure { b with frames := f' :: outer } ∧
        ∀ nodes, Item.ofParts { f' with nodes := nodes }.finish =
          Item.ofParts { f with opening := .case subject }.finish ++
            a.values.map fun e => .condition
              (.single { left := subject, operator := some "==", right := e.toExpr }) (some nodes.reverse) :=
  ⟨fun p => ⟨p.readStrict_chars, p.readLax_chars⟩, fun c => ⟨c.readStrict_chars, c.readLax_chars⟩,
    fun a => a.takePart_chars⟩

end Stencil
