import Stencil.Proofs.Tree.Acceptance
import Stencil.Proofs.Tree.Selection

/-!
# Reading with warnings

Between strictness and tolerance there is a mode that reads each markup with the strict grammar and, where
that complains, with the tolerant one, and keeps the complaint as a warning.

* `Settles options b p b' warnings`: the segment is taken so.
* `SettlesAll`: the same for segments one after another.
* `warn_is_strict_or_lax`: templates are read in this mode by settling their segments, and without warnings
  just if they are read in the strict mode, which otherwise fails with the first warning.
-/

namespace Stencil

open Parsing

/-- The complaint about a markup, with the line of its segment where it has none. -/
def TemplateError.noted (line : Option Nat) (markup : List Char) (e : TemplateError) : TemplateError :=
  { e with line := e.line.or (line.map Int.ofNat), markup := some (markupNote markup) }

/-- A complaint that has the line of its segment is not given it again. -/
theorem TemplateError.locate_noted (line : Option Nat) (markup : List Char) (e : TemplateError)
    (name : Option String) : (e.noted line markup).locate (line.map Int.ofNat) name =
      (e.noted line markup).locate none name := by
  unfold locate noted
  dsimp only
  rw [Option.or_assoc, Option.or_self, Option.or_none]

namespace Parsing

variable {α β : Type} {line : Option Nat} {strict lax : List Char → Outcome α} {markup : List Char}

@[simp] theorem run_ofOutcome (x : Outcome α) (kept : List TemplateError) :
    (ofOutcome x).run kept = (x, kept) := by
  cases x <;> rfl

/-- A sequence of two steps ends well when both do. -/
theorem run_bind_eq_ok {x : Parsing α} {f : α → Parsing β} {kept kept' : List TemplateError} {b : β} :
    (x >>= f).run kept = (.ok b, kept') ↔
      ∃ a mid, x.run kept = (.ok a, mid) ∧ (f a).run mid = (.ok b, kept') := by
  rw [run_bind]
  generalize x.run kept = out
  match out with
  | (.ok a, mid) =>
    constructor
    · exact fun h => ⟨a, mid, rfl, h⟩
    · rintro ⟨a', mid', ha, h⟩
      cases ha
      exact h
  | (.error e, mid) =>
    constructor
    · exact fun h => nomatch h
    · rintro ⟨a', mid', ha, -⟩
      cases ha

/-- Only failures are given a place. -/
theorem run_locate_eq_ok {name : Option String} {x : Parsing α} {kept kept' : List TemplateError} {a : α} :
    (locate line name x).run kept = (.ok a, kept') ↔ x.run kept = (.ok a, kept') := by
  rw [run_locate]
  generalize x.run kept = out
  match out with
  | (.ok a', mid) => exact Iff.rfl
  | (.error e, mid) => exact ⟨fun h => (nomatch h), fun h => (nomatch h)⟩

/-! ## What becomes of one markup -/

/-- With warnings, markup is read as the strict grammar accepts it, or as the tolerant one does and with the
complaint of the strict one. -/
theorem run_select_warn_eq_ok {kept kept' : List TemplateError} {a : α}
    (hread : (select .warn line strict lax markup).run kept = (.ok a, kept')) :
    (strict markup = .ok a ∧ kept' = kept) ∨
      ∃ e, strict markup = .error (.template e) ∧ e.kind = .malformed ∧ lax markup = .ok a ∧
        kept' = kept ++ [e.noted line markup] := by
  unfold select at hread
  dsimp only at hread
  cases hstrict : strict markup with
  | ok a' =>
    rw [hstrict] at hread
    cases hread
    exact .inl ⟨rfl, rfl⟩
  | error e =>
    rw [hstrict] at hread
    cases e with
    | host h => cases hread
    | template e =>
      dsimp only at hread
      split at hread
      · next hkind =>
        rw [if_neg (by decide), run_bind] at hread
        have hlax : (ofOutcome (lax markup)).run (kept ++ [e.noted line markup]) = (.ok a, kept') := hread
        rw [run_ofOutcome] at hlax
        obtain ⟨haccepts, rfl⟩ := Prod.mk.inj hlax
        exact .inr ⟨e, rfl, beq_iff_eq.mp hkind, haccepts, rfl⟩
      · cases hread

/-- Markup that the strict mode accepts is read without warnings, also where they are kept. -/
theorem run_select_of_strict {mode : ErrorMode} {a : α} (hmode : mode ≠ .lax)
    (hread : (select .strict line strict lax markup).outcome = .ok a) (kept : List TemplateError) :
    (select mode line strict lax markup).run kept = (.ok a, kept) := by
  have haccepts := outcome_select_eq_ok_iff.mp hread
  dsimp only at haccepts
  unfold select
  cases mode with
  | lax => exact absurd rfl hmode
  | warn | strict =>
    rw [haccepts]
    rfl

/-- In the strict mode a complaint is a failure. -/
theorem outcome_select_refused {e : TemplateError} (hrejects : strict markup = .error (.template e))
    (hkind : e.kind = .malformed) :
    (select .strict line strict lax markup).outcome = .error (.template (e.noted line markup)) := by
  unfold select
  rw [hrejects]
  dsimp only
  rw [if_pos (beq_iff_eq.mpr hkind), if_pos (by decide)]
  rfl

end Parsing

/-- What comes with these warnings, if there are none; otherwise the first one is a failure. -/
def orFirstWarning {α : Type} (a : α) : List TemplateError → Outcome α
  | [] => .ok a
  | w :: _ => .error (.template w)

namespace Builder

variable {options : ParseOptions} {b b' : Builder} {p : Segment.Placed}
  {segments : List Segment.Placed} {warnings kept kept' : List TemplateError}

/-! ## One segment -/

/-- The segment is taken with these warnings. Where no markup is read with one of two grammars, the mode
makes no difference; a markup that the strict grammar accepts is taken as in the strict mode, and one that
it complains about as in the tolerant mode, with the complaint as a warning. -/
inductive Settles (options : ParseOptions) (b : Builder) (p : Segment.Placed) :
    Builder → List TemplateError → Prop
  | alike {b' : Builder} (hnone : b.selection? options.tags p = none)
    (htakes : ∀ mode, Takes (options.inMode mode) b p b') : Settles options b p b' []
  | strict {b' : Builder} {s : Selection} {part : s.Part}
    (hselection : b.selection? options.tags p = some s) (haccepts : s.strict s.markup = .ok part)
    (htakes : Takes (options.inMode .strict) b p b') : Settles options b p b' []
  | lax {b' : Builder} {s : Selection} {part : s.Part} {e : TemplateError}
    (hselection : b.selection? options.tags p = some s)
    (hrejects : s.strict s.markup = .error (.template e)) (hkind : e.kind = .malformed)
    (hlax : s.lax s.markup = .ok part) (htakes : Takes (options.inMode .lax) b p b') :
    Settles options b p b' [e.noted p.line s.markup]

/-- The mode only matters for how the markup is read. -/
theorem takes_of_select {s : Selection} {goOn : s.Part → Outcome Builder} {mode : ErrorMode}
    {part : s.Part} (htake : b.take (options.inMode mode) p =
      select mode p.line s.strict s.lax s.markup >>= fun part => ofOutcome (goOn part))
    (hread : (select mode p.line s.strict s.lax s.markup).outcome = .ok part)
    (hgoOn : goOn part = .ok b') : Takes (options.inMode mode) b p b' := by
  refine takes_of_outcome ?_
  rw [htake, outcome_bind _ fun _ => steady_ofOutcome _, hread]
  exact (outcome_ofOutcome _).trans hgoOn

/-- **Step lemma.** A segment that is taken with warnings settles. -/
theorem settles_of_take (htake : (b.take (options.inMode .warn) p).run kept = (.ok b', kept')) :
    ∃ warnings, kept' = kept ++ warnings ∧ Settles options b p b' warnings := by
  cases hselection : b.selection? options.tags p with
  | none =>
    obtain ⟨result, hsame⟩ := take_alike hselection
    rw [hsame, run_ofOutcome] at htake
    obtain ⟨rfl, rfl⟩ := Prod.mk.inj htake
    refine ⟨[], (List.append_nil _).symm, .alike hselection fun mode => takes_of_outcome ?_⟩
    rw [hsame, outcome_ofOutcome]
  | some s =>
    obtain ⟨goOn, hsame⟩ := take_selects hselection
    rw [hsame, run_bind_eq_ok] at htake
    obtain ⟨part, mid, hread, hrest⟩ := htake
    rw [run_ofOutcome] at hrest
    obtain ⟨hgoOn, rfl⟩ := Prod.mk.inj hrest
    rcases run_select_warn_eq_ok hread with ⟨hstrict, rfl⟩ | ⟨e, hstrict, hkind, hlax, rfl⟩
    · exact ⟨[], (List.append_nil _).symm, .strict hselection hstrict
        (takes_of_select (hsame _) (outcome_select_eq_ok_iff.mpr hstrict) hgoOn)⟩
    · exact ⟨_, rfl, .lax hselection hstrict hkind hlax
        (takes_of_select (hsame _) (outcome_select_eq_ok_iff.mpr hlax) hgoOn)⟩

/-- A segment that the strict mode takes is taken without a warning, also where they are kept. -/
theorem run_take_of_strict {mode : ErrorMode} (hmode : mode ≠ .lax)
    (htakes : Takes (options.inMode .strict) b p b') (kept : List TemplateError) :
    (b.take (options.inMode mode) p).run kept = (.ok b', kept) := by
  have htake := htakes.outcome
  cases hselection : b.selection? options.tags p with
  | none =>
    obtain ⟨result, hsame⟩ := take_alike hselection
    rw [hsame, outcome_ofOutcome] at htake
    rw [hsame, run_ofOutcome, htake]
  | some s =>
    obtain ⟨goOn, hsame⟩ := take_selects hselection
    rw [hsame, outcome_bind_eq_ok fun _ => steady_ofOutcome _] at htake
    obtain ⟨part, hread, hgoOn⟩ := htake
    rw [outcome_ofOutcome] at hgoOn
    rw [hsame, run_bind_eq_ok]
    exact ⟨part, kept, run_select_of_strict hmode hread kept, by rw [run_ofOutcome, hgoOn]⟩

/-- **Step lemma.** A segment that settles without warnings is taken in the strict mode, and one that
settles with a warning is refused with it. -/
theorem Settles.outcome_strict (hsettles : Settles options b p b' warnings) :
    (b.take (options.inMode .strict) p).outcome = orFirstWarning b' warnings := by
  cases hsettles with
  | alike _ htakes => exact (htakes .strict).outcome
  | strict _ _ htakes => exact htakes.outcome
  | lax hselection hrejects hkind _ _ =>
    obtain ⟨goOn, hsame⟩ := take_selects hselection
    rw [hsame, outcome_bind _ fun _ => steady_ofOutcome _, outcome_select_refused hrejects hkind]
    rfl

/-! ## Segments one after another -/

/-- Segments are taken one after another with these warnings, in their order. -/
inductive SettlesAll (options : ParseOptions) :
    Builder → List Segment.Placed → Builder → List TemplateError → Prop
  | done (b : Builder) : SettlesAll options b [] b []
  | step {b next b' : Builder} {p : Segment.Placed} {later : List Segment.Placed}
    {warnings others : List TemplateError} (hsettles : Settles options b p next warnings)
    (hlater : SettlesAll options next later b' others) :
    SettlesAll options b (p :: later) b' (warnings ++ others)

/-- **Run lemma.** Segments that are taken with warnings settle one after another. -/
theorem settlesAll_of_takeAll
    (htake : (takeAll (options.inMode .warn) b segments).run kept = (.ok b', kept')) :
    ∃ warnings, kept' = kept ++ warnings ∧ SettlesAll options b segments b' warnings := by
  induction segments generalizing b kept with
  | nil =>
    cases htake
    exact ⟨[], (List.append_nil _).symm, .done _⟩
  | cons p later ih =>
    rw [takeAll, run_bind_eq_ok] at htake
    obtain ⟨next, mid, hfirst, hlater⟩ := htake
    obtain ⟨warnings, rfl, hsettles⟩ := settles_of_take (run_locate_eq_ok.mp hfirst)
    obtain ⟨others, rfl, hothers⟩ := ih hlater
    exact ⟨warnings ++ others, List.append_assoc .., .step hsettles hothers⟩

/-- Segments that the strict mode takes are taken without warnings. -/
theorem run_takeAll_of_strict {mode : ErrorMode} (hmode : mode ≠ .lax)
    (hbuilds : Builds (options.inMode .strict) b segments b') (kept : List TemplateError) :
    (takeAll (options.inMode mode) b segments).run kept = (.ok b', kept) := by
  induction segments generalizing b with
  | nil =>
    cases builds_nil.mp hbuilds
    rfl
  | cons p later ih =>
    obtain ⟨next, htakes, hlater⟩ := builds_cons.mp hbuilds
    rw [takeAll, run_bind_eq_ok]
    exact ⟨next, kept, run_locate_eq_ok.mpr (run_take_of_strict hmode htakes kept), ih hlater⟩

/-- **Run lemma.** Segments that settle without warnings are taken in the strict mode, and others are
refused with the first warning, which is only given the name of the template. -/
theorem SettlesAll.outcome_strict (hsettles : SettlesAll options b segments b' warnings) :
    (takeAll (options.inMode .strict) b segments).outcome =
      (orFirstWarning b' warnings).mapError (placed none options.name) := by
  induction hsettles with
  | done b => rfl
  | step hsettles _ ih =>
    rw [outcome_takeAll_cons, hsettles.outcome_strict]
    cases hsettles with
    | alike _ _ | strict _ _ _ => exact ih
    | lax _ _ _ _ _ => exact congrArg (Except.error ∘ Failure.template) (TemplateError.locate_noted ..)

end Builder

/-! ## Whole templates -/

section

variable {options : ParseOptions} {source : List Char} {body : Body} {warnings : List TemplateError}

/-- A tree is read with these warnings when all segments are taken with them and nothing is left open. -/
theorem run_parseBody_eq_ok_iff :
    (parseBody options source).run [] = (.ok body, warnings) ↔ 1 ≤ options.maxDepth ∧ ∃ b : Builder,
      (Builder.takeAll options {} (Segment.scanPlaced options.numbered source)).run [] =
        (.ok b, warnings) ∧ b.verbatim = none ∧ b.frames = [] ∧ body = b.nodes.reverse := by
  unfold parseBody
  by_cases hdepth : options.maxDepth ≤ 0
  · rw [if_pos hdepth]
    exact ⟨fun h => (nomatch h), fun h => absurd h.1 (by omega)⟩
  · rw [if_neg hdepth]
    dsimp only
    rw [run_bind_eq_ok]
    constructor
    · rintro ⟨b, mid, htake, hfinish⟩
      rw [run_locate_eq_ok, run_ofOutcome] at hfinish
      obtain ⟨hdone, rfl⟩ := Prod.mk.inj hfinish
      exact ⟨by omega, b, htake, Builder.finish_eq_ok_iff.mp hdone⟩
    · rintro ⟨-, b, htake, hopen⟩
      refine ⟨b, warnings, htake, ?_⟩
      rw [run_locate_eq_ok, run_ofOutcome, Builder.finish_eq_ok_iff.mpr hopen]

/-- A tree that the strict mode reads is read without warnings, also where they are kept. -/
theorem run_parseBody_of_strict {mode : ErrorMode} (hmode : mode ≠ .lax)
    (hparse : (parseBody (options.inMode .strict) source).outcome = .ok body) :
    (parseBody (options.inMode mode) source).run [] = (.ok body, []) := by
  obtain ⟨hdepth, b, hbuilds, hopen⟩ := parseBody_eq_ok_iff.mp hparse
  exact run_parseBody_eq_ok_iff.mpr ⟨hdepth, b, Builder.run_takeAll_of_strict hmode hbuilds [], hopen⟩

/-- A tree that is read with warnings is what its segments settle to. -/
theorem settlesAll_of_parseBody
    (hparse : (parseBody (options.inMode .warn) source).run [] = (.ok body, warnings)) :
    1 ≤ options.maxDepth ∧ ∃ b : Builder,
      Builder.SettlesAll options {} (Segment.scanPlaced options.numbered source) b warnings ∧
      b.verbatim = none ∧ b.frames = [] ∧ body = b.nodes.reverse := by
  obtain ⟨hdepth, b, htake, hopen⟩ := run_parseBody_eq_ok_iff.mp hparse
  obtain ⟨all, hwarnings, hsettles⟩ := Builder.settlesAll_of_takeAll htake
  rw [List.nil_append] at hwarnings
  rw [hwarnings]
  exact ⟨hdepth, b, hsettles, hopen⟩

/-- What the strict mode makes of a tree that is read with warnings. -/
theorem outcome_parseBody_strict
    (hparse : (parseBody (options.inMode .warn) source).run [] = (.ok body, warnings)) :
    (parseBody (options.inMode .strict) source).outcome =
      (orFirstWarning body warnings).mapError (placed none options.name) := by
  obtain ⟨hdepth, b, hsettles, hopen⟩ := settlesAll_of_parseBody hparse
  have htake := hsettles.outcome_strict
  cases warnings with
  | nil => exact parseBody_eq_ok_iff.mpr ⟨hdepth, b, htake, hopen⟩
  | cons w rest =>
    have hdeep : ¬ (options.inMode .strict).maxDepth ≤ 0 := Int.not_le.mpr (by exact hdepth)
    rw [outcome_parseBody, if_neg hdeep]
    dsimp only
    rw [show (options.inMode .strict).numbered = options.numbered from rfl, htake]
    rfl

end

namespace Environment

variable {env : Environment} {overrides : ParseOverrides} {name : Option String} {source : String}
  {options : ParseOptions}

/-- The options of a template have its name. -/
theorem name_of_parseOptions (hoptions : env.parseOptions overrides name = .ok options) :
    options.name = name := by
  unfold parseOptions at hoptions
  dsimp only at hoptions
  split at hoptions <;>
  · obtain ⟨mode, -, hrest⟩ := bind_eq_ok_iff.mp hoptions
    cases hrest
    rfl

/-- A template is its tree and the warnings that its tree is read with. -/
theorem parse_eq_ok_iff (hoptions : env.parseOptions overrides name = .ok options) {t : Template} :
    (env.parse overrides name source).1 = .ok t ↔ ∃ body warnings,
      (parseBody options source.toList).run [] = (.ok body, warnings) ∧ t = { name, body, warnings } := by
  rw [parse_eq hoptions]
  unfold outcome
  generalize (parseBody options source.toList).run [] = out
  match out with
  | (.ok body, warnings) =>
    constructor
    · intro h
      cases h
      exact ⟨body, warnings, rfl, rfl⟩
    · rintro ⟨_, _, h, rfl⟩
      cases h
      rfl
  | (.error e, warnings) =>
    constructor
    · exact fun h => nomatch h
    · rintro ⟨_, _, h, -⟩
      cases h

end Environment

/-- **Reading with warnings is strictness and tolerance, markup by markup.** Let a source be read twice,
with options that are the same but for the mode. The strict mode reads a template just if the mode with
warnings reads the same one and there are none. When there are warnings, the strict mode fails with the
first one, which then has the name of the template and the source. Of a template that is read with warnings,
the segments are taken one after another: a markup that the strict grammar accepts as in the strict mode,
and one that it complains about as in the tolerant mode; these complaints are the warnings. -/
theorem warn_is_strict_or_lax (warning strict : Environment)
    (warningOverrides strictOverrides : ParseOverrides) (name : Option String) (source : String)
    (options : ParseOptions)
    (hwarning : warning.parseOptions warningOverrides name = .ok (options.inMode .warn))
    (hstrict : strict.parseOptions strictOverrides name = .ok (options.inMode .strict)) :
    (∀ t, (strict.parse strictOverrides name source).1 = .ok t ↔
      (warning.parse warningOverrides name source).1 = .ok t ∧ t.warnings = []) ∧
    (∀ t w ws, (warning.parse warningOverrides name source).1 = .ok t → t.warnings = w :: ws →
      (strict.parse strictOverrides name source).1 = .error (.template
        { w with templateName := w.templateName.or name, source := w.source.or (some source) })) ∧
    ∀ t, (warning.parse warningOverrides name source).1 = .ok t → ∃ b : Builder,
      Builder.SettlesAll options {} (Segment.scanPlaced options.numbered source.toList) b t.warnings ∧
      b.verbatim = none ∧ b.frames = [] ∧ t.body = b.nodes.reverse := by
  refine ⟨fun t => ⟨fun ht => ?_, ?_⟩, fun t w ws ht hwarnings => ?_, fun t ht => ?_⟩
  · obtain ⟨body, warnings, hbody, rfl⟩ := (Environment.parse_eq_ok_iff hstrict).mp ht
    have hoffers := congrArg Prod.fst hbody
    -- neither mode keeps warnings
    obtain rfl : warnings = [] := by
      have hnone : (parseBody (options.inMode .strict) source.toList).run [] = (.ok body, []) :=
        run_parseBody_of_strict nofun hoffers
      rw [hbody] at hnone
      exact (Prod.mk.inj hnone).2
    exact ⟨(Environment.parse_eq_ok_iff hwarning).mpr
      ⟨body, [], run_parseBody_of_strict nofun hoffers, rfl⟩, rfl⟩
  · rintro ⟨ht, hwarnings⟩
    obtain ⟨body, warnings, hbody, rfl⟩ := (Environment.parse_eq_ok_iff hwarning).mp ht
    obtain rfl : warnings = [] := hwarnings
    exact (Environment.parse_eq_ok_iff hstrict).mpr ⟨body, [],
      run_parseBody_of_strict nofun (outcome_parseBody_strict hbody), rfl⟩
  · obtain ⟨body, warnings, hbody, rfl⟩ := (Environment.parse_eq_ok_iff hwarning).mp ht
    obtain rfl : warnings = w :: ws := hwarnings
    have hname : (options.inMode .warn).name = name := Environment.name_of_parseOptions hwarning
    rw [Environment.parse_eq hstrict, outcome_parseBody_strict hbody, ← hname]
    dsimp only [orFirstWarning, Except.mapError, placed, TemplateError.locate, Template.withSource,
      Option.map_none]
    rw [Option.or_none]
    rfl
  · obtain ⟨body, warnings, hbody, rfl⟩ := (Environment.parse_eq_ok_iff hwarning).mp ht
    exact (settlesAll_of_parseBody hbody).2

/-- Two outputs that only the tolerant grammar takes, on either side of one that both do. -/
def looseSource : String := "\x7b\x7b a b \x7d\x7d\n\x7b\x7b c \x7d\x7d\x7b\x7b d e \x7d\x7d"

/-- The two outputs are warned of, and the strict mode fails with the first of the warnings. -/
theorem warn_is_strict_or_lax_looseSource :
    (({} : Environment).parseOptions { mode := some "warn" } none =
        .ok (ParseOptions.inMode {} .warn) ∧
      ({} : Environment).parseOptions { mode := some "strict" } none =
        .ok (ParseOptions.inMode {} .strict)) ∧
    ∃ t w other, (({} : Environment).parse { mode := some "warn" } none looseSource).1 = .ok t ∧
      t.warnings = [w, other] ∧
      (({} : Environment).parse { mode := some "strict" } none looseSource).1 = .error (.template
        { w with templateName := w.templateName.or none, source := w.source.or (some looseSource) }) ∧
      ∃ b, Builder.SettlesAll {} {} (Segment.scanPlaced true looseSource.toList) b [w, other] := by
  have hlength : (({} : Environment).parse { mode := some "warn" } none looseSource).1.toOption.map
      (·.warnings.length) = some 2 := by decide +kernel
  have hboth := warn_is_strict_or_lax {} {} { mode := some "warn" } { mode := some "strict" } none
    looseSource {} rfl rfl
  cases ht : (({} : Environment).parse { mode := some "warn" } none looseSource).1 with
  | error e =>
    rw [ht] at hlength
    cases hlength
  | ok t =>
    rw [ht] at hlength
    obtain ⟨w, other, hwarnings⟩ := List.length_eq_two.mp (Option.some.inj hlength)
    obtain ⟨b, hsettles, -⟩ := hboth.2.2 t ht
    rw [hwarnings] at hsettles
    exact ⟨⟨rfl, rfl⟩, t, w, other, rfl, hwarnings, hboth.2.1 t w [other] ht hwarnings, b, hsettles⟩

end Stencil
