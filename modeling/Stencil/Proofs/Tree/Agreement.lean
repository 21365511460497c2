import Stencil.Proofs.Tree.Acceptance
import Stencil.Proofs.Tree.ConditionAgreement
import Stencil.Proofs.Tree.LoopAgreement
import Stencil.Proofs.Tree.OutputAgreement

/-!
# Templates in both grammars

What the strict grammar reads means the same in the tolerant one, if it is spaced so that fragments end
where expressions do: pipelines, conditions and heads of loops by themselves, and templates segment by
segment. Without blanks around an operator the two grammars differ (`grammars_differ_unspaced`).
-/

namespace Stencil

open Lexeme Parsing

/-! ## How a template is spaced -/

/-- Whether the markup of a tag is spaced so that both grammars read it alike. Tags of other kinds are
read in one way only. -/
def TagKind.IsSpaced : TagKind → List Char → Prop
  | .assign, markup => ∀ found ∈ Fragment.assignment? markup, (spaced found.2).IsChain Pipeline.Apart
  | .choose, markup | .negated, markup => Condition.spacedFrom (.operand false) (spaced markup) = true
  | .loop, markup => LoopHeader.IsSpaced (spaced markup)
  | _, _ => True

instance (kind : TagKind) (markup : List Char) : Decidable (kind.IsSpaced markup) := by
  cases kind <;> unfold TagKind.IsSpaced <;> infer_instance

namespace Segment.Placed

/-- Whether a tag is spaced so that both grammars read it alike. One that is not registered is read in two
ways only if it starts a part behind a condition. -/
def IsSpacedTag (tags : Named TagKind) (name markup : List Char) : Prop :=
  match tags.get? (String.ofList name) with
  | some kind => kind.IsSpaced markup
  | none => String.ofList name = "elsif" →
      Condition.spacedFrom (.operand false) (spaced markup) = true

/-- Whether the markup of a segment is spaced so that both grammars read it alike. -/
def IsSpaced (tags : Named TagKind) (p : Placed) : Prop :=
  match p.segment.kind with
  | .text => True
  | .output => ∀ markup ∈ p.segment.output?, (spaced markup).IsChain Pipeline.Apart
  | .tag => ∀ found ∈ p.segment.tag?, IsSpacedTag tags found.1 found.2

instance (tags : Named TagKind) (name markup : List Char) : Decidable (IsSpacedTag tags name markup) := by
  unfold IsSpacedTag
  split <;> infer_instance

instance (tags : Named TagKind) (p : Placed) : Decidable (p.IsSpaced tags) := by
  unfold IsSpaced
  split <;> infer_instance

variable {tags : Named TagKind} {p : Placed} {tag : Tag} {markup : List Char}

theorem IsSpaced.output (hspaced : p.IsSpaced tags) (houtput : p.IsOutput markup) :
    (spaced markup).IsChain Pipeline.Apart := by
  unfold IsSpaced at hspaced
  rw [houtput.1] at hspaced
  exact hspaced markup houtput.2

theorem IsSpaced.isSpacedTag (hspaced : p.IsSpaced tags) (htag : p.IsTag tag markup) :
    ∃ name, tag.name = String.ofList name ∧ IsSpacedTag tags name markup := by
  obtain ⟨hkind, name, hfound, rfl⟩ := htag
  unfold IsSpaced at hspaced
  rw [hkind] at hspaced
  exact ⟨name, rfl, hspaced _ hfound⟩

theorem IsSpaced.registered {kind : TagKind} (hspaced : p.IsSpaced tags) (htag : p.IsTag tag markup)
    (hkind : tags.get? tag.name = some kind) : kind.IsSpaced markup := by
  obtain ⟨name, hname, h⟩ := hspaced.isSpacedTag htag
  unfold IsSpacedTag at h
  rwa [← hname, hkind] at h

theorem IsSpaced.bare (hspaced : p.IsSpaced tags) (htag : p.IsTag tag markup)
    (hnone : tags.get? tag.name = none) (helsif : tag.name = "elsif") :
    Condition.spacedFrom (.operand false) (spaced markup) = true := by
  obtain ⟨name, hname, h⟩ := hspaced.isSpacedTag htag
  unfold IsSpacedTag at h
  rw [← hname, hnone] at h
  exact h helsif

end Segment.Placed

def ParseOptions.tolerant (options : ParseOptions) : ParseOptions := { options with mode := .lax }

section

variable {options : ParseOptions} (hmode : options.mode = .strict)
include hmode

/-! ## What is read alike -/

theorem strict_of_select {α : Type} {line : Option Nat} {strict lax : List Char → Outcome α}
    {markup : List Char} {a : α}
    (hread : (select options.mode line strict lax markup).outcome = .ok a) : strict markup = .ok a := by
  rw [hmode] at hread
  exact outcome_select_eq_ok_iff.mp hread

theorem readOutput_tolerant {line : Option Nat} {markup : List Char} {o : Output}
    (hspaced : (spaced markup).IsChain Pipeline.Apart)
    (hread : (Builder.readOutput options line markup).outcome = .ok o) :
    (Builder.readOutput options.tolerant line markup).outcome = .ok o := by
  obtain ⟨pipeline, hpipeline, ho⟩ := (outcome_bind_eq_ok fun _ => steady_pure _).mp hread
  have hlax := Pipeline.readLax_of_readStrict (strict_of_select hmode hpipeline) hspaced
  refine (outcome_bind_eq_ok fun _ => steady_pure _).mpr ⟨pipeline, ?_, ho⟩
  exact (outcome_ofOutcome _).trans hlax

theorem readCondition_tolerant {line : Option Nat} {tag : String} {markup : List Char}
    {condition : Condition} (hspaced : Condition.spacedFrom (.operand false) (spaced markup) = true)
    (hread : (Builder.readCondition options line tag markup).outcome = .ok condition) :
    (Builder.readCondition options.tolerant line tag markup).outcome = .ok condition :=
  (outcome_ofOutcome _).trans
    (Condition.readLax_of_readStrict (strict_of_select hmode hread) hspaced tag)

theorem readTag_tolerant {kind : TagKind} {tag : Tag} {markup : List Char} {reading : TagReading}
    (hspaced : kind.IsSpaced markup)
    (hread : (Builder.readTag options kind tag markup).outcome = .ok reading) :
    (Builder.readTag options.tolerant kind tag markup).outcome = .ok reading := by
  cases kind with
  | assign =>
    unfold Builder.readTag at hread ⊢
    dsimp only at hread ⊢
    split at hread
    · cases hread
    · next target source hfound =>
      obtain ⟨o, ho, hreading⟩ := (outcome_bind_eq_ok fun _ => steady_pure _).mp hread
      exact (outcome_bind_eq_ok fun _ => steady_pure _).mpr
        ⟨o, readOutput_tolerant hmode (hspaced _ hfound) ho, hreading⟩
  | choose | negated =>
    obtain ⟨condition, hcondition, hreading⟩ := (outcome_bind_eq_ok fun _ => steady_pure _).mp hread
    exact (outcome_bind_eq_ok fun _ => steady_pure _).mpr
      ⟨condition, readCondition_tolerant hmode hspaced hcondition, hreading⟩
  | loop =>
    obtain ⟨header, hheader, hreading⟩ := (outcome_bind_eq_ok fun _ => steady_pure _).mp hread
    have hlax := LoopHeader.readLax_of_readStrict (strict_of_select hmode hheader) hspaced
    refine (outcome_bind_eq_ok fun _ => steady_pure _).mpr ⟨header, ?_, hreading⟩
    exact (outcome_ofOutcome _).trans hlax
  | _ => exact hread

theorem readPart_tolerant {f : Frame} {name : String} {line : Option Nat} {markup : List Char}
    {reading : PartReading}
    (hspaced : name = "elsif" → Condition.spacedFrom (.operand false) (spaced markup) = true)
    (hread : (Builder.readPart options f name line markup).outcome = .ok reading) :
    (Builder.readPart options.tolerant f name line markup).outcome = .ok reading :=
  Builder.readPart_of_readCondition rfl rfl rfl
    (fun helsif _ => readCondition_tolerant hmode (hspaced helsif)) hread

/-! ## Segment by segment -/

open Builder

theorem Builder.Takes.tolerant {b b' : Builder} {p : Segment.Placed} (hspaced : p.IsSpaced options.tags)
    (htakes : Takes options b p b') : Takes options.tolerant b p b' := by
  have hregistered {tag : Tag} {reading : TagReading} (h : p.IsRegistered options tag reading) :
      p.IsRegistered options.tolerant tag reading := by
    obtain ⟨markup, kind, htag, hkind, hread⟩ := h
    exact ⟨markup, kind, htag, hkind, readTag_tolerant hmode (hspaced.registered htag hkind) hread⟩
  have hpart {tag : Tag} {markup : List Char} {f : Frame} {reading : PartReading}
      (h : p.IsBare options tag markup)
      (hread : (readPart options f tag.name p.line markup).outcome = .ok reading) :
      (readPart options.tolerant f tag.name p.line markup).outcome = .ok reading :=
    readPart_tolerant hmode (hspaced.bare h.1 h.2) hread
  cases htakes with
  | verbatim v hverbatim => exact .verbatim v hverbatim
  | text hverbatim hkind => exact .text hverbatim hkind
  | output hverbatim houtput hread =>
    exact .output hverbatim houtput (readOutput_tolerant hmode (hspaced.output houtput) hread)
  | node hverbatim htag => exact .node hverbatim (hregistered htag)
  | opens hverbatim htag hdepth => exact .opens hverbatim (hregistered htag) hdepth
  | raw hverbatim htag => exact .raw hverbatim (hregistered htag)
  | ends hverbatim htag hframes hread => exact .ends hverbatim htag hframes (hpart htag hread)
  | starts hverbatim htag hframes hread => exact .starts hverbatim htag hframes (hpart htag hread)
  | skipped hverbatim htag hframes hread => exact .skipped hverbatim htag hframes (hpart htag hread)

theorem Builder.Builds.tolerant {b b' : Builder} {segments : List Segment.Placed}
    (hspaced : ∀ p ∈ segments, p.IsSpaced options.tags) (hbuilds : Builds options b segments b') :
    Builds options.tolerant b segments b' := by
  induction segments generalizing b with
  | nil => exact builds_nil.mpr (builds_nil.mp hbuilds)
  | cons p rest ih =>
    obtain ⟨hp, hrest⟩ := List.forall_mem_cons.mp hspaced
    obtain ⟨next, htakes, hbuilds⟩ := builds_cons.mp hbuilds
    exact builds_cons.mpr ⟨next, htakes.tolerant hmode hp, ih hrest hbuilds⟩

/-- **Templates mean the same in both grammars**, when the strict one reads them and their markup is spaced
so. -/
theorem parseBody_tolerant {source : List Char} {body : Body}
    (hspaced : ∀ p ∈ Segment.scanPlaced options.numbered source, p.IsSpaced options.tags)
    (hbody : (parseBody options source).outcome = .ok body) :
    (parseBody options.tolerant source).outcome = .ok body := by
  obtain ⟨hdepth, b, hbuilds, hdone⟩ := parseBody_eq_ok_iff.mp hbody
  exact parseBody_eq_ok_iff.mpr ⟨hdepth, b, hbuilds.tolerant hmode hspaced, hdone⟩

end

/-- **What the strict grammar reads means the same in the tolerant one**, when it is spaced so: pipelines,
conditions, heads of loops, and whole templates. -/
theorem grammars_agree :
    (∀ (markup : List Char) (pipeline : Pipeline), Pipeline.readStrict markup = .ok pipeline →
      (spaced markup).IsChain Pipeline.Apart → Pipeline.readLax markup = .ok pipeline) ∧
    (∀ (tag : String) (markup : List Char) (condition : Condition),
      Condition.readStrict markup = .ok condition →
      Condition.spacedFrom (.operand false) (spaced markup) = true →
      Condition.readLax tag markup = .ok condition) ∧
    (∀ (markup : List Char) (header : LoopHeader), LoopHeader.readStrict markup = .ok header →
      LoopHeader.IsSpaced (spaced markup) → LoopHeader.readLax markup = .ok header) ∧
    ∀ (options : ParseOptions) (source : List Char) (body : Body), options.mode = .strict →
      (∀ p ∈ Segment.scanPlaced options.numbered source, p.IsSpaced options.tags) →
      (parseBody options source).outcome = .ok body →
      (parseBody options.tolerant source).outcome = .ok body :=
  ⟨fun _ _ => Pipeline.readLax_of_readStrict,
    fun tag _ _ hstrict hspaced => Condition.readLax_of_readStrict hstrict hspaced tag,
    fun _ _ => LoopHeader.readLax_of_readStrict, fun _ _ _ hmode => parseBody_tolerant hmode⟩

def spacedPipeline : List Char := "x.y | date: 'a b', zone:z | size".toList

def spacedCondition : List Char := "x.y == 'a or b'and not contains w[0]".toList

def spacedHeader : List Char := "x in (1..3) reversed limit: 2 offset : 'a'".toList

def spacedSource : List Char :=
  "\x7b% for x in y %\x7d\x7b% if x == 1 %\x7d\x7b\x7b x | size \x7d\x7d\x7b% endif %\x7d\x7b% endfor %\x7d".toList

theorem exists_eq_ok_of_isOk {ε α : Type} {x : Except ε α} (h : x.isOk = true) : ∃ a, x = .ok a := by
  cases x with
  | ok a => exact ⟨a, rfl⟩
  | error e => cases h

theorem grammars_agree_spaced :
    (∃ pipeline, Pipeline.readStrict spacedPipeline = .ok pipeline ∧
      Pipeline.readLax spacedPipeline = .ok pipeline) ∧
    (∃ condition, Condition.readStrict spacedCondition = .ok condition ∧
      Condition.readLax "if" spacedCondition = .ok condition) ∧
    (∃ header, LoopHeader.readStrict spacedHeader = .ok header ∧
      LoopHeader.readLax spacedHeader = .ok header) ∧
    ∃ body, (parseBody { mode := .strict } spacedSource).outcome = .ok body ∧
      (parseBody {} spacedSource).outcome = .ok body := by
  obtain ⟨pipeline, hpipeline⟩ := exists_eq_ok_of_isOk
    (show (Pipeline.readStrict spacedPipeline).isOk = true by decide +kernel)
  obtain ⟨condition, hcondition⟩ := exists_eq_ok_of_isOk
    (show (Condition.readStrict spacedCondition).isOk = true by decide +kernel)
  obtain ⟨header, hheader⟩ := exists_eq_ok_of_isOk
    (show (LoopHeader.readStrict spacedHeader).isOk = true by decide +kernel)
  obtain ⟨body, hbody⟩ := exists_eq_ok_of_isOk
    (show (parseBody { mode := .strict } spacedSource).outcome.isOk = true by decide +kernel)
  exact ⟨⟨pipeline, hpipeline, grammars_agree.1 _ _ hpipeline (by decide +kernel)⟩,
    ⟨condition, hcondition, grammars_agree.2.1 "if" _ _ hcondition (by decide +kernel)⟩,
    ⟨header, hheader, grammars_agree.2.2.1 _ _ hheader (by decide +kernel)⟩,
    body, hbody, grammars_agree.2.2.2 _ _ _ rfl (by decide +kernel) hbody⟩

/-- Without blanks around the operator, the strict grammar compares two variables, and the tolerant one
takes the whole text for the path of one. -/
theorem grammars_differ_unspaced :
    Condition.readStrict "a==b".toList = .ok (.single
      { left := .lookup (.value (.str "a")) [], operator := some "==",
        right := .lookup (.value (.str "b")) [] }) ∧
    Condition.readLax "if" "a==b".toList = .ok (.single
      { left := .lookup (.value (.str "a")) [.name "b"] }) ∧
    ¬ ∀ (markup : List Char) (condition : Condition), Condition.readStrict markup = .ok condition →
      Condition.readLax "if" markup = .ok condition := by
  have hstrict : Condition.readStrict "a==b".toList = .ok (.single
      { left := .lookup (.value (.str "a")) [], operator := some "==",
        right := .lookup (.value (.str "b")) [] }) := by rfl
  have hlax : Condition.readLax "if" "a==b".toList = .ok (.single
      { left := .lookup (.value (.str "a")) [.name "b"] }) := by rfl
  refine ⟨hstrict, hlax, fun h => ?_⟩
  have := hlax.symm.trans (h _ _ hstrict)
  cases this

end Stencil
