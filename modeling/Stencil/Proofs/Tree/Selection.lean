import Stencil.Proofs.Expr.Failures
import Stencil.Proofs.Tree.Refusals
import Stencil.Proofs.Tree.Steps

/-!
# Markups for which the mode chooses the grammar

A segment has at most one markup that the mode makes a difference for (`Builder.selection?`). Whatever else
is done with the segment, before and after that markup is read, is the same in all modes (`factors_take`).
-/

namespace Stencil

open Parsing

/-- The same options in another mode. -/
def ParseOptions.inMode (options : ParseOptions) (mode : ErrorMode) : ParseOptions :=
  { options with mode }

@[simp] theorem ParseOptions.tags_inMode (options : ParseOptions) (mode : ErrorMode) :
    (options.inMode mode).tags = options.tags := rfl

/-- A markup that is read with one of two grammars, and what it is read as. -/
structure Selection where
  Part : Type
  strict : List Char → Outcome Part
  lax : List Char → Outcome Part
  markup : List Char

namespace Selection

/-- The markup of an output, or of the source of an assignment. -/
def output (markup : List Char) : Selection :=
  ⟨Pipeline, Pipeline.readStrict, Pipeline.readLax, markup⟩

/-- The markup of a condition; complaints are about the block. -/
def condition (block : String) (markup : List Char) : Selection :=
  ⟨Condition, Condition.readStrict, Condition.readLax block, markup⟩

/-- The markup of a loop. -/
def loop (markup : List Char) : Selection :=
  ⟨LoopHeader, LoopHeader.readStrict, LoopHeader.readLax, markup⟩

/-- The markup of a registered tag that is read with one of two grammars. -/
def ofTag? (kind : TagKind) (name : String) (markup : List Char) : Option Selection :=
  match kind with
  | .assign => (Fragment.assignment? markup).map fun (_, source) => output source
  | .choose | .negated => some (condition name markup)
  | .loop => some (loop markup)
  | _ => none

/-- The markup of a tag that is not registered, inside an open block, that is read with one of two
grammars. -/
def ofPart? (f : Frame) (name : String) (markup : List Char) : Option Selection :=
  match f.opening with
  | .choose _ =>
    if name != Complaint.delimiter f.tag.name && name == "elsif" then
      some (condition f.tag.name markup)
    else none
  | _ => none

end Selection

/-- The markup of a segment that is read with one of two grammars, as the mode says. -/
def Builder.selection? (tags : Named TagKind) (b : Builder) (p : Segment.Placed) : Option Selection :=
  match b.verbatim with
  | some _ => none
  | none =>
    match p.segment.kind with
    | .text => none
    | .output => p.segment.output?.map Selection.output
    | .tag =>
      p.segment.tag?.bind fun (name, markup) =>
        match tags.get? (String.ofList name) with
        | some kind => Selection.ofTag? kind (String.ofList name) markup
        | none => b.frames.head?.bind fun f => Selection.ofPart? f (String.ofList name) markup

namespace Parsing

variable {α β : Type}

/-- A step whose grammar the mode may choose: if there is a selection, its markup is read as the mode says,
and what is done with the result is the same in all modes. -/
def Factors (line : Option Nat) (step : ErrorMode → Parsing α) : Option Selection → Prop
  | none => ∃ result : Outcome α, ∀ mode, step mode = ofOutcome result
  | some s => ∃ goOn : s.Part → Outcome α, ∀ mode,
      step mode = select mode line s.strict s.lax s.markup >>= fun part => ofOutcome (goOn part)

theorem ofOutcome_bind (x : Outcome α) (f : α → Outcome β) :
    (ofOutcome x >>= fun a => ofOutcome (f a)) = ofOutcome (x.bind f) := by
  cases x <;> rfl

/-- What is done after a step is the same in all modes. -/
theorem Factors.bind {line : Option Nat} {step : ErrorMode → Parsing α} {s? : Option Selection}
    (h : Factors line step s?) {f : ErrorMode → α → Parsing β}
    (hf : ∀ a, ∃ result : Outcome β, ∀ mode, f mode a = ofOutcome result) :
    Factors line (fun mode => step mode >>= f mode) s? := by
  obtain ⟨g, hg⟩ := Classical.skolem.mp hf
  have hrest (mode : ErrorMode) : f mode = fun a => ofOutcome (g a) := funext fun a => hg a mode
  cases s? with
  | none =>
    obtain ⟨result, hstep⟩ := h
    refine ⟨result.bind g, fun mode => ?_⟩
    dsimp only
    rw [hstep, hrest, ofOutcome_bind]
  | some s =>
    obtain ⟨goOn, hstep⟩ := h
    refine ⟨fun part => (goOn part).bind g, fun mode => ?_⟩
    dsimp only
    rw [hstep, hrest, bind_assoc]
    exact bind_congr fun part => ofOutcome_bind _ _

theorem factors_ofOutcome {line : Option Nat} (result : Outcome α) :
    Factors line (fun _ => ofOutcome result) none := ⟨result, fun _ => rfl⟩

theorem factors_pure {line : Option Nat} (a : α) : Factors line (fun _ => pure a) none :=
  ⟨.ok a, fun _ => rfl⟩

theorem factors_select (line : Option Nat) (s : Selection) :
    Factors line (fun mode => select mode line s.strict s.lax s.markup) (some s) :=
  ⟨.ok, fun _ => (bind_pure _).symm⟩

end Parsing

namespace Builder

variable (options : ParseOptions)

theorem factors_readOutput (line : Option Nat) (markup : List Char) :
    Factors line (fun mode => readOutput (options.inMode mode) line markup)
      (some (.output markup)) :=
  (factors_select line (.output markup)).bind fun pipeline =>
    ⟨.ok { pipeline, markup := String.ofList markup, line }, fun _ => rfl⟩

theorem factors_readCondition (line : Option Nat) (block : String) (markup : List Char) :
    Factors line (fun mode => readCondition (options.inMode mode) line block markup)
      (some (.condition block markup)) :=
  factors_select line (.condition block markup)

/-- **A registered tag is read in the same way in all modes**, but for the grammar of one markup. -/
theorem factors_readTag (kind : TagKind) (tag : Tag) (markup : List Char) :
    Factors tag.line (fun mode => readTag (options.inMode mode) kind tag markup)
      (Selection.ofTag? kind tag.name markup) := by
  cases kind with
  | assign =>
    unfold readTag Selection.ofTag?
    dsimp only
    cases Fragment.assignment? markup with
    | none => exact factors_ofOutcome _
    | some parts =>
      obtain ⟨target, source⟩ := parts
      exact (factors_readOutput options tag.line source).bind fun o =>
        ⟨.ok (.node (.assign tag (String.ofList target) o)), fun _ => rfl⟩
  | choose =>
    exact (factors_readCondition options tag.line tag.name markup).bind fun c =>
      ⟨.ok (.opens (.choose false) (.condition c)), fun _ => rfl⟩
  | negated =>
    exact (factors_readCondition options tag.line tag.name markup).bind fun c =>
      ⟨.ok (.opens (.choose true) (.condition c)), fun _ => rfl⟩
  | loop =>
    exact (factors_select tag.line (.loop markup)).bind fun header =>
      ⟨.ok (.opens (.loop header) .opening), fun _ => rfl⟩
  | capture =>
    unfold readTag Selection.ofTag?
    dsimp only
    cases Fragment.firstTarget? markup with
    | none => exact factors_ofOutcome _
    | some target => exact factors_pure _
  | case =>
    unfold readTag Selection.ofTag?
    dsimp only
    cases Fragment.first? markup with
    | none => exact factors_ofOutcome _
    | some found =>
      exact (factors_ofOutcome (Expr.read found.1)).bind fun subject =>
        ⟨.ok (.opens (.case subject) .opening), fun _ => rfl⟩
  | cycle =>
    exact (factors_ofOutcome (readCycle markup)).bind fun read =>
      ⟨.ok (.node (.cycle tag read.1 read.2)), fun _ => rfl⟩
  | table =>
    exact (factors_ofOutcome (TableHeader.read markup)).bind fun header =>
      ⟨.ok (.opens (.table header) .opening), fun _ => rfl⟩
  | repeated =>
    exact (factors_ofOutcome (readCount markup)).bind fun count =>
      ⟨.ok (.opens (.block (.repeated count)) .opening), fun _ => rfl⟩
  | raw =>
    unfold readTag Selection.ofTag?
    dsimp only
    split
    · exact factors_pure _
    · exact factors_ofOutcome _
  -- the other tags are not read
  | leave | skip | comment | changed | shout | scopeDepth | plain | wrap => exact factors_pure _

theorem factors_refuse {α : Type} {line : Option Nat} (f : Frame) (name : String) :
    Factors line (fun _ => (refuse f name : Parsing α)) none := factors_ofOutcome _

/-- **A tag that is not registered is read in the same way in all modes**, but for the grammar of one
markup. -/
theorem factors_readPart (f : Frame) (name : String) (line : Option Nat) (markup : List Char) :
    Factors line (fun mode => readPart (options.inMode mode) f name line markup)
      (Selection.ofPart? f name markup) := by
  obtain ⟨tag, opening, parts, guard, nodes⟩ := f
  unfold readPart Selection.ofPart?
  dsimp only
  by_cases hends : name == Complaint.delimiter tag.name
  · -- the end of a block has no markup that is read
    have hnone : (name != Complaint.delimiter tag.name && name == "elsif") = false := by
      rw [bne, hends]
      rfl
    simp only [hends, if_true, hnone, Bool.false_eq_true, if_false]
    cases opening <;> exact factors_pure _
  · have hsome : (name != Complaint.delimiter tag.name && name == "elsif") = (name == "elsif") := by
      rw [bne, Bool.eq_false_iff.mpr hends]
      rfl
    simp only [if_neg hends, hsome]
    cases opening with
    | choose negated =>
      dsimp only
      by_cases helsif : name == "elsif"
      · simp only [if_pos helsif]
        exact (factors_readCondition options line tag.name markup).bind fun c =>
          ⟨.ok (.starts (.condition c)), fun _ => rfl⟩
      · simp only [if_neg helsif]
        split
        · exact factors_pure _
        · exact factors_refuse _ name
    | case subject =>
      dsimp only
      split
      · split
        · exact factors_ofOutcome _
        · exact (factors_ofOutcome ((Fragment.alternatives markup).mapM Expr.read)).bind fun es =>
            ⟨.ok (PartReading.starts (.alternatives es)), fun _ => rfl⟩
      · split
        · split
          · exact factors_pure _
          · exact factors_ofOutcome _
        · exact factors_refuse _ name
    | loop header =>
      dsimp only
      split
      · exact factors_pure _
      · exact factors_refuse _ name
    | table header => exact factors_refuse _ name
    | block kind =>
      cases kind with
      | comment => exact factors_pure _
      | _ => exact factors_refuse _ name

/-- What is done with a registered tag once it is read does not ask for the mode. -/
theorem factors_takeTag (b : Builder) (kind : TagKind) (tag : Tag) (markup : List Char) :
    Factors tag.line (fun mode => takeTag (options.inMode mode) b kind tag markup)
      (Selection.ofTag? kind tag.name markup) := by
  refine (factors_readTag options kind tag markup).bind fun reading => ?_
  cases reading with
  | opens opening guard =>
    refine ⟨(openBlock options b tag opening guard).outcome, fun mode => ?_⟩
    dsimp only
    rw [outcome_openBlock]
    unfold openBlock
    -- the mode makes no difference to the depth
    change (if options.maxDepth ≤ _ then _ else _) = _
    split <;> split <;> first | rfl | omega
  | node node => exact ⟨.ok (b.add node), fun _ => rfl⟩
  | verbatim => exact ⟨.ok { b with verbatim := some { tag } }, fun _ => rfl⟩

theorem factors_takePart (b : Builder) (f : Frame) (rest : List Frame) (name : String)
    (line : Option Nat) (markup : List Char) :
    Factors line (fun mode => takePart (options.inMode mode) b f rest name line markup)
      (Selection.ofPart? f name markup) := by
  refine (factors_readPart options f name line markup).bind fun reading => ?_
  cases reading with
  | ends => exact ⟨.ok ({ b with frames := rest }.add f.finish), fun _ => rfl⟩
  | starts guard => exact ⟨.ok { b with frames := f.startPart guard :: rest }, fun _ => rfl⟩
  | skipped => exact ⟨.ok b, fun _ => rfl⟩

/-- Trimming makes no difference to how the innermost block reads a tag. -/
theorem ofPart?_applyTrims (b : Builder) (s : Segment) (name : String) (markup : List Char) :
    ((b.applyTrims s).frames.head?.bind fun f => Selection.ofPart? f name markup) =
      b.frames.head?.bind fun f => Selection.ofPart? f name markup := by
  have hset (nodes : List Node) :
      ((b.setCurrent nodes).frames.head?.bind fun f => Selection.ofPart? f name markup) =
        b.frames.head?.bind fun f => Selection.ofPart? f name markup := by
    obtain ⟨outer, frames, verbatim, trimNext⟩ := b
    cases frames <;> rfl
  unfold applyTrims
  dsimp only
  split
  · exact hset _
  · rfl

/-- **A segment is taken in the same way in all modes**, but for the grammar of one markup. -/
theorem factors_take (b : Builder) (p : Segment.Placed) :
    Factors p.line (fun mode => b.take (options.inMode mode) p) (b.selection? options.tags p) := by
  unfold take selection?
  dsimp only
  cases b.verbatim with
  | some v => exact factors_pure _
  | none =>
    dsimp only
    cases p.segment.kind with
    | text => exact factors_pure _
    | output =>
      dsimp only
      cases p.segment.output? with
      | none => exact factors_ofOutcome _
      | some markup =>
        exact (factors_readOutput options p.line markup).bind fun o =>
          ⟨.ok ((b.applyTrims p.segment).add (.output o)), fun _ => rfl⟩
    | tag =>
      dsimp only
      cases p.segment.tag? with
      | none => exact factors_ofOutcome _
      | some parts =>
        obtain ⟨name, markup⟩ := parts
        dsimp only [Option.bind_some]
        simp only [ParseOptions.tags_inMode]
        cases options.tags.get? (String.ofList name) with
        | some kind =>
          exact factors_takeTag options (b.applyTrims p.segment) kind
            ⟨String.ofList name, String.ofList markup, p.line⟩ markup
        | none =>
          dsimp only
          rw [← ofPart?_applyTrims b p.segment]
          cases (b.applyTrims p.segment).frames with
          | nil => exact factors_ofOutcome _
          | cons f rest =>
            exact factors_takePart options (b.applyTrims p.segment) f rest (String.ofList name) p.line
              markup

variable {options}

/-- A segment without a choice is taken in the same way in all modes. -/
theorem take_alike {b : Builder} {p : Segment.Placed} (hnone : b.selection? options.tags p = none) :
    ∃ result : Outcome Builder, ∀ mode, b.take (options.inMode mode) p = ofOutcome result := by
  have hfactors := factors_take options b p
  rw [hnone] at hfactors
  exact hfactors

/-- A segment with a choice is taken in the same way in all modes, once its markup is read. -/
theorem take_selects {b : Builder} {p : Segment.Placed} {s : Selection}
    (hselection : b.selection? options.tags p = some s) :
    ∃ goOn : s.Part → Outcome Builder, ∀ mode, b.take (options.inMode mode) p =
      select mode p.line s.strict s.lax s.markup >>= fun part => ofOutcome (goOn part) := by
  have hfactors := factors_take options b p
  rw [hselection] at hfactors
  exact hfactors

end Builder

end Stencil
