import Stencil.Proofs.Tree.Refusals
import Stencil.Proofs.Tree.Steps

/-!
# How the taking of a segment fails

A segment is refused for its markup, for the place it stands at, or because blocks are nested too deeply.
What is known of failures of these three kinds (`SafeSegment`) is known of whatever the taking of the segment
fails with (`SafeSegment.take`).
-/

namespace Stencil

open Parsing

/-- Complaints, and failures to read a markup of the segment, are failures of the kind `Q`, also when a
complaint of the strict grammar is given its place, and so is the failure of a block that may not be
opened. -/
structure SafeSegment (options : ParseOptions) (p : Segment.Placed) (P Q : Failure → Prop)
    (T : List Char → Prop) : Prop where
  texts : SafeTexts P T
  output {markup : List Char} (houtput : p.IsOutput markup) : T markup
  tag {tag : Tag} {markup : List Char} (htag : p.IsTag tag markup) : T markup
  failure {e : Failure} (he : P e) : Q e
  placed {e : TemplateError} (he : P (.template e)) (markup : List Char) :
    Q (.template { e with
      line := e.line.or (p.line.map Int.ofNat), markup := some (markupNote markup) })
  nesting : Q (.template { TemplateError.nestingTooDeep with line := p.line.map Int.ofNat })

namespace Parsing

variable {α β : Type} {Q : Failure → Prop}

theorem failsOnly_outcome_bind {x : Parsing α} {f : α → Parsing β} (hsteady : ∀ a, Steady (f a))
    (hx : FailsOnly Q x.outcome) (hf : ∀ a, FailsOnly Q (f a).outcome) :
    FailsOnly Q (x >>= f).outcome := by
  rw [outcome_bind x hsteady]
  exact hx.bind fun a _ => hf a

/-- A step that only makes something of what another one gave fails as that one does. -/
theorem failsOnly_outcome_pure {x : Parsing α} (hx : FailsOnly Q x.outcome) (f : α → β) :
    FailsOnly Q (x >>= fun a => pure (f a)).outcome :=
  failsOnly_outcome_bind (fun _ => steady_pure _) hx fun _ => failsOnly_ok _

theorem failsOnly_outcome_ofOutcome {o : Outcome α} (ho : FailsOnly Q o) :
    FailsOnly Q (ofOutcome o).outcome := by
  rw [outcome_ofOutcome]
  exact ho

end Parsing

namespace SafeSegment

variable {options : ParseOptions} {p : Segment.Placed} {P Q : Failure → Prop} {T : List Char → Prop}
  (h : SafeSegment options p P Q T)

include h

theorem lift {α : Type} {o : Outcome α} (ho : FailsOnly P o) : FailsOnly Q (ofOutcome o).outcome :=
  failsOnly_outcome_ofOutcome fun e he => h.failure (ho e he)

theorem complain {α : Type} (c : Complaint) :
    FailsOnly Q (ofOutcome (Stencil.complain c : Outcome α)).outcome := h.lift (h.texts.complain c)

/-- Both grammars may fail, and a complaint of the strict one is given its place. -/
theorem select {α : Type} {mode : ErrorMode} {strict lax : List Char → Outcome α} {markup : List Char}
    (hstrict : FailsOnly P (strict markup)) (hlax : FailsOnly P (lax markup)) :
    FailsOnly Q (select mode p.line strict lax markup).outcome := by
  have hother : FailsOnly Q (ofOutcome (lax markup)).outcome := h.lift hlax
  unfold Parsing.select
  split
  · exact hother
  · cases hread : strict markup with
    | ok a => exact failsOnly_ok a
    | error e =>
      have he := hstrict e hread
      cases e with
      | host e => exact failsOnly_error (h.failure he)
      | template e =>
        dsimp only
        split
        · split
          · exact failsOnly_error (h.placed he markup)
          · exact failsOnly_outcome_bind (fun _ => steady_ofOutcome _) (failsOnly_ok ()) fun _ => hother
        · exact failsOnly_error (h.failure he)

theorem readOutput {markup : List Char} (hmarkup : T markup) :
    FailsOnly Q (Builder.readOutput options p.line markup).outcome :=
  failsOnly_outcome_pure
    (h.select (h.texts.pipeline_readStrict hmarkup) (h.texts.pipeline_readLax hmarkup)) _

theorem readCondition (tag : String) {markup : List Char} (hmarkup : T markup) :
    FailsOnly Q (Builder.readCondition options p.line tag markup).outcome :=
  h.select (h.texts.condition_readStrict hmarkup) (h.texts.condition_readLax tag hmarkup)

/-- A registered tag fails as its markup is read. -/
theorem readTag (kind : TagKind) {tag : Tag} {markup : List Char} (htag : p.IsTag tag markup) :
    FailsOnly Q (Builder.readTag options kind tag markup).outcome := by
  have hmarkup := h.tag htag
  have hline : tag.line = p.line := by
    obtain ⟨-, name, -, rfl⟩ := htag
    rfl
  unfold Builder.readTag
  dsimp only
  cases kind with
  | assign =>
    dsimp only
    split
    · exact h.complain _
    · next target source hassign =>
      rw [hline]
      have hsource := (Fragment.suffix_of_assignment? hassign).isInfix
      exact failsOnly_outcome_pure (h.readOutput (h.texts.within hsource hmarkup)) _
  | capture =>
    dsimp only
    split
    · exact h.complain _
    · exact failsOnly_ok _
  | case =>
    dsimp only
    split
    · exact h.complain _
    · next subject rest hfirst =>
      have hsubject := (Fragment.found_of_first? hfirst).within
      exact failsOnly_outcome_pure (h.lift (h.texts.read (h.texts.within hsubject hmarkup))) _
  | cycle => exact failsOnly_outcome_pure (h.lift (h.texts.readCycle hmarkup)) _
  | loop =>
    rw [hline]
    exact failsOnly_outcome_pure
      (h.select (h.texts.loop_readStrict hmarkup) (h.texts.loop_readLax hmarkup)) _
  | choose | negated =>
    rw [hline]
    exact failsOnly_outcome_pure (h.readCondition tag.name hmarkup) _
  | raw =>
    dsimp only
    split
    · exact failsOnly_ok _
    · exact h.complain _
  | table => exact failsOnly_outcome_pure (h.lift (h.texts.table_read hmarkup)) _
  | repeated =>
    refine failsOnly_outcome_pure (h.lift ?_) _
    unfold Builder.readCount
    split
    · split
      · exact failsOnly_ok _
      · exact h.texts.complain _
    · exact h.texts.complain _
  | leave | skip | comment | changed | shout | scopeDepth | plain | wrap => exact failsOnly_ok _

theorem refuse {α : Type} (f : Frame) (name : String) :
    FailsOnly Q (Builder.refuse f name : Parsing α).outcome := h.complain _

/-- A tag inside an open block fails as its markup is read, or is refused. -/
theorem readPart (f : Frame) {tag : Tag} {markup : List Char} (htag : p.IsTag tag markup) :
    FailsOnly Q (Builder.readPart options f tag.name p.line markup).outcome := by
  have hmarkup := h.tag htag
  unfold Builder.readPart
  split
  · exact failsOnly_ok _
  · split
    · split
      · exact failsOnly_outcome_pure (h.readCondition f.tag.name hmarkup) _
      · split
        · exact failsOnly_ok _
        · exact h.refuse f _
    · split
      · split
        · exact h.complain _
        · have hvalues := h.texts.mapM_read fun t ht =>
            h.texts.within (Fragment.within_of_mem_alternatives ht) hmarkup
          exact failsOnly_outcome_pure (h.lift hvalues) _
      · split
        · split
          · exact failsOnly_ok _
          · exact h.complain _
        · exact h.refuse f _
    · split
      · exact failsOnly_ok _
      · exact h.refuse f _
    · exact failsOnly_ok _
    · exact h.refuse f _

/-- **The taking of a segment fails** as its markup is read, because of its place, or because a block may
not be opened. -/
theorem take (b : Builder) : FailsOnly Q (b.take options p).outcome := by
  unfold Builder.take
  dsimp only
  split
  · exact failsOnly_ok _
  · split
    · exact failsOnly_ok _
    · next hkind =>
      split
      · exact h.complain _
      · next markup houtput =>
        exact failsOnly_outcome_pure (h.readOutput (h.output ⟨hkind, houtput⟩)) _
    · next hkind =>
      split
      · exact h.complain _
      · next name markup htag =>
        have hp : p.IsTag ⟨String.ofList name, String.ofList markup, p.line⟩ markup :=
          ⟨hkind, name, htag, rfl⟩
        split
        · next kind _ =>
          rw [Builder.outcome_takeTag]
          refine (h.readTag kind hp).bind fun reading _ => ?_
          cases reading with
          | node node => exact failsOnly_ok _
          | verbatim => exact failsOnly_ok _
          | opens opening guard =>
            dsimp only
            rw [Builder.outcome_openBlock]
            split
            · exact failsOnly_ok _
            · exact failsOnly_error h.nesting
        · split
          · exact h.complain _
          · next f rest _ =>
            rw [Builder.outcome_takePart]
            exact (h.readPart f hp).map _

end SafeSegment

end Stencil
