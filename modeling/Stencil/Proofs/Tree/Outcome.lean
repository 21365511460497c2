import Stencil.Tree.Builder

/-!
# How parsing steps end

A parsing step keeps complaints and ends with a result or a failure. No step looks at the complaints
that were kept before (`Steady`), so that how it ends is a matter of the step alone (`outcome`). Each way
of putting steps together has one equation here, and later modules never open the monad.
-/

namespace Stencil

namespace Parsing

variable {α β : Type}

/-- How a step ends. -/
def outcome (step : Parsing α) : Outcome α := (step.run []).1

/-- The step ends in the same way, whatever complaints were kept before. -/
def Steady (step : Parsing α) : Prop := ∀ kept, (step.run kept).1 = step.outcome

/-! ## Single steps -/

@[simp] theorem outcome_ofOutcome (o : Outcome α) : (ofOutcome o).outcome = o := by
  cases o <;> rfl

theorem steady_pure (a : α) : Steady (pure a : Parsing α) := fun _ => rfl

theorem steady_throw (e : Failure) : Steady (throw e : Parsing α) := fun _ => rfl

theorem steady_ofOutcome (o : Outcome α) : Steady (ofOutcome o) := by
  intro kept
  cases o <;> rfl

theorem steady_warn (e : TemplateError) : Steady (warn e) := fun _ => rfl

/-! ## Putting steps together -/

/-- What a sequence of two steps ends with, and the complaints it leaves. -/
theorem run_bind (x : Parsing α) (f : α → Parsing β) (kept : List TemplateError) :
    (x >>= f).run kept =
      match x.run kept with
      | (.ok a, more) => (f a).run more
      | (.error e, more) => (.error e, more) := by
  simp only [Bind.bind, ExceptT.bind, ExceptT.mk, ExceptT.run, StateT.bind,
    ExceptT.bindCont]
  generalize x kept = out
  match out with
  | (.ok a, more) => rfl
  | (.error e, more) => rfl

/-- A sequence of two steps ends with the first failure. -/
theorem outcome_bind (x : Parsing α) {f : α → Parsing β} (hf : ∀ a, Steady (f a)) :
    (x >>= f).outcome = x.outcome.bind fun a => (f a).outcome := by
  unfold outcome
  rw [run_bind]
  generalize x.run [] = out
  match out with
  | (.ok a, more) => exact hf a more
  | (.error e, more) => rfl

theorem steady_bind {x : Parsing α} {f : α → Parsing β} (hx : Steady x) (hf : ∀ a, Steady (f a)) :
    Steady (x >>= f) := by
  intro kept
  rw [outcome_bind x hf, run_bind, ← hx kept]
  generalize x.run kept = out
  match out with
  | (.ok a, more) => exact hf a more
  | (.error e, more) => rfl

/-- A sequence that ends well does so by both of its steps. -/
theorem outcome_bind_eq_ok {x : Parsing α} {f : α → Parsing β} (hf : ∀ a, Steady (f a)) {b : β} :
    (x >>= f).outcome = .ok b ↔ ∃ a, x.outcome = .ok a ∧ (f a).outcome = .ok b := by
  rw [outcome_bind x hf]
  cases x.outcome with
  | ok a =>
    constructor
    · exact fun hb => ⟨a, rfl, hb⟩
    · rintro ⟨_, ha, hb⟩
      cases ha
      exact hb
  | error e =>
    constructor
    · exact fun hb => nomatch hb
    · rintro ⟨_, ha, _⟩
      cases ha

/-- A failure with its place, where it has none. -/
def placed (line : Option Nat) (name : Option String) : Failure → Failure
  | .template e => .template (e.locate (line.map Int.ofNat) name)
  | .host e => .host e

theorem run_locate (line : Option Nat) (name : Option String) (x : Parsing α)
    (kept : List TemplateError) :
    (locate line name x).run kept = ((x.run kept).1.mapError (placed line name), (x.run kept).2) := by
  simp only [locate, tryCatch, tryCatchThe, MonadExceptOf.tryCatch, ExceptT.tryCatch]
  unfold ExceptT.run ExceptT.mk
  simp only [Bind.bind, StateT.bind]
  generalize x kept = out
  match out with
  | (.ok a, more) => rfl
  | (.error (.template e), more) => rfl
  | (.error (.host e), more) => rfl

theorem outcome_locate (line : Option Nat) (name : Option String) (x : Parsing α) :
    (locate line name x).outcome = x.outcome.mapError (placed line name) := by
  unfold outcome
  rw [run_locate]

theorem steady_locate {line : Option Nat} {name : Option String} {x : Parsing α} (hx : Steady x) :
    Steady (locate line name x) := by
  intro kept
  rw [outcome_locate, run_locate, hx kept]

/-- The complaints of the strict grammar may be kept, but none is looked at. -/
theorem steady_select {mode : ErrorMode} {line : Option Nat} {strict lax : List Char → Outcome α}
    {markup : List Char} : Steady (select mode line strict lax markup) := by
  unfold select
  split
  · exact steady_ofOutcome _
  · split
    · exact steady_pure _
    · split
      · dsimp only
        split
        · exact steady_bind (steady_throw _) fun _ => steady_bind (steady_warn _) fun _ =>
            steady_ofOutcome _
        · exact steady_bind (steady_warn _) fun _ => steady_ofOutcome _
      · exact steady_throw _
    · exact steady_throw _

/-- What markup is read as: what the strict grammar gives, or the tolerant one where it stands in. The line
makes no difference. -/
theorem outcome_select_eq_ok_iff {mode : ErrorMode} {line : Option Nat}
    {strict lax : List Char → Outcome α} {markup : List Char} {a : α} :
    (select mode line strict lax markup).outcome = .ok a ↔
      match mode with
      | .lax => lax markup = .ok a
      | .strict => strict markup = .ok a
      | .warn => strict markup = .ok a ∨
        ∃ e, strict markup = .error (.template e) ∧ e.kind = .malformed ∧ lax markup = .ok a := by
  have hwarned (e : TemplateError) :
      (do warn e; ofOutcome (lax markup) : Parsing α).outcome = lax markup := by
    rw [outcome_bind _ fun _ => steady_ofOutcome _, outcome_ofOutcome]
    rfl
  -- the line is only put into warnings and failures
  unfold select
  cases mode with
  | lax =>
    dsimp only
    rw [outcome_ofOutcome]
  | strict =>
    dsimp only
    cases hstrict : strict markup with
    | ok b => exact Iff.rfl
    | error e =>
      cases e with
      | host h => exact Iff.rfl
      | template e =>
        dsimp only
        refine iff_of_false (fun h => ?_) (fun h => nomatch h)
        split at h <;> cases h
  | warn =>
    dsimp only
    cases hstrict : strict markup with
    | ok b =>
      refine ⟨.inl, ?_⟩
      rintro (h | ⟨e, he, -⟩)
      · exact h
      · cases he
    | error e =>
      cases e with
      | host h =>
        refine iff_of_false (fun h => nomatch h) ?_
        rintro (h | ⟨e, he, -⟩)
        · cases h
        · cases he
      | template e =>
        dsimp only
        by_cases hkind : e.kind = .malformed
        · rw [if_pos (beq_iff_eq.mpr hkind), if_neg (by decide), hwarned]
          refine ⟨fun h => .inr ⟨e, rfl, hkind, h⟩, ?_⟩
          rintro (h | ⟨-, -, -, h⟩)
          · cases h
          · exact h
        · rw [if_neg fun h => hkind (beq_iff_eq.mp h)]
          refine iff_of_false (fun h => nomatch h) ?_
          rintro (h | ⟨e', he, hkind', -⟩)
          · cases h
          · cases he
            exact hkind hkind'

/-- Something is read off a markup by one of the two grammars. -/
def ReadBy (strict lax : List Char → Outcome α) (a : α) : Prop :=
  ∃ markup, strict markup = .ok a ∨ lax markup = .ok a

theorem readBy_of_select {mode : ErrorMode} {line : Option Nat} {strict lax : List Char → Outcome α}
    {markup : List Char} {a : α} (hread : (select mode line strict lax markup).outcome = .ok a) :
    ReadBy strict lax a := by
  refine ⟨markup, ?_⟩
  have hmode := outcome_select_eq_ok_iff.mp hread
  cases mode with
  | lax => exact .inr hmode
  | strict => exact .inl hmode
  | warn => exact hmode.imp_right fun ⟨_, _, _, hlax⟩ => hlax

end Parsing

open Parsing

namespace Builder

/-! ## The steps of the builder -/

theorem steady_readOutput {options : ParseOptions} {line : Option Nat} {markup : List Char} :
    Steady (readOutput options line markup) :=
  steady_bind steady_select fun _ => steady_pure _

theorem steady_readCondition {options : ParseOptions} {line : Option Nat} {tag : String}
    {markup : List Char} : Steady (readCondition options line tag markup) := steady_select

theorem steady_openBlock (options : ParseOptions) (b : Builder) (tag : Tag) (opening : Opening)
    (guard : Guard) : Steady (openBlock options b tag opening guard) := by
  unfold openBlock
  split
  · exact steady_throw _
  · exact steady_pure _

theorem steady_refuse {α : Type} (f : Frame) (name : String) : Steady (refuse f name : Parsing α) :=
  steady_ofOutcome _

theorem steady_readTag (options : ParseOptions) (kind : TagKind) (tag : Tag) (markup : List Char) :
    Steady (readTag options kind tag markup) := by
  unfold readTag
  dsimp only
  -- in the order of the kinds of tags
  split
  · split
    · exact steady_ofOutcome _
    · exact steady_bind steady_readOutput fun _ => steady_pure _
  · exact steady_pure _
  · exact steady_pure _
  · split
    · exact steady_ofOutcome _
    · exact steady_pure _
  · split
    · exact steady_ofOutcome _
    · exact steady_bind (steady_ofOutcome _) fun _ => steady_pure _
  · exact steady_pure _
  · exact steady_bind (steady_ofOutcome _) fun _ => steady_pure _
  · exact steady_bind steady_select fun _ => steady_pure _
  · exact steady_bind steady_readCondition fun _ => steady_pure _
  · exact steady_bind steady_readCondition fun _ => steady_pure _
  · exact steady_pure _
  · split
    · exact steady_pure _
    · exact steady_ofOutcome _
  · exact steady_bind (steady_ofOutcome _) fun _ => steady_pure _
  · exact steady_pure _
  · exact steady_pure _
  · exact steady_pure _
  · exact steady_bind (steady_ofOutcome _) fun _ => steady_pure _
  · exact steady_pure _

theorem steady_readPart (options : ParseOptions) (f : Frame) (name : String) (line : Option Nat)
    (markup : List Char) : Steady (readPart options f name line markup) := by
  unfold readPart
  split
  · exact steady_pure _
  · split
    -- in the order of the blocks that have parts
    · split
      · exact steady_bind steady_readCondition fun _ => steady_pure _
      · split
        · exact steady_pure _
        · exact steady_refuse f name
    · split
      · split
        · exact steady_ofOutcome _
        · exact steady_bind (steady_ofOutcome _) fun _ => steady_pure _
      · split
        · split
          · exact steady_pure _
          · exact steady_ofOutcome _
        · exact steady_refuse f name
    · split
      · exact steady_pure _
      · exact steady_refuse f name
    · exact steady_pure _
    · exact steady_refuse f name

end Builder

end Stencil
