import Stencil.Proofs.Expr.Safety
import Stencil.Proofs.Markup.NormalForms
import Stencil.Proofs.Tree.ExactLines

/-!
# Sources that cannot make the host fail

Reading a source fails with an error of the host only because of a numeral or of a range that is made at
once. Where the markup of every tag and output is free of both (`Segment.Harmless`), there is a template or a
template error (`parse_total`).
-/

namespace Stencil

open Text Parsing
open Grammar (RestOf)

/-- The failure is an error of the template. -/
def Failure.IsTemplate (e : Failure) : Prop := ∃ t, e = .template t

/-- What the host failed with, if it did. -/
def Failure.cause? : Failure → Option HostCause
  | .host e => some e.cause
  | .template _ => none

/-! ## Texts of a kind -/

/-- Texts that are read without failing are safe, if what the strict grammar reads off them is of the same
kind. -/
theorem SafeNumerals.safeTexts {T : List Char → Prop} {V : Value → Prop} (h : SafeNumerals T V)
    (hexpression : ∀ {ls rest t}, RestOf T ls → Grammar.expression ls = .ok (t, rest) → T t)
    (hargument : ∀ {ls rest t}, RestOf T ls → Grammar.argument ls = .ok (t, rest) → T t) :
    SafeTexts Failure.IsTemplate T where
  complaint c := ⟨_, rfl⟩
  read hs := by
    obtain ⟨e, he, -⟩ := Expr.exists_read h hs
    rw [he]
    exact failsOnly_ok e
  shown hs hread := by
    obtain ⟨e, he, hliterals⟩ := Expr.exists_read h hs
    cases hread.symm.trans he
    obtain ⟨s, hs⟩ := Expr.exists_shown (fun v hv => h.shown hv) _ hliterals
    rw [hs]
    exact failsOnly_ok s
  within := h.within
  expression := hexpression
  argument := hargument

theorem safeTexts_noDots : SafeTexts Failure.IsTemplate HasNoDots := by
  refine safeNumerals_noDots.safeTexts ?_ ?_
  · rintro ls rest t ⟨markup, before, hmarkup, hlexemes⟩ hread
    exact ⟨Grammar.runsBelow_of_expression Grammar.interrupted_dots (by decide) hmarkup.dots hlexemes hread,
      Grammar.runsBelow_of_expression Grammar.interrupted_digits (by decide) hmarkup.short hlexemes hread⟩
  · rintro ls rest t ⟨markup, before, hmarkup, hlexemes⟩ hread
    exact ⟨Grammar.runsBelow_of_argument Grammar.interrupted_dots (by decide) (by decide) (by decide)
        hmarkup.dots hlexemes hread,
      Grammar.runsBelow_of_argument Grammar.interrupted_digits (by decide) (by decide) (by decide)
        hmarkup.short hlexemes hread⟩

theorem safeTexts_plainDigits : SafeTexts Failure.IsTemplate HasPlainDigits := by
  refine safeNumerals_plainDigits.safeTexts ?_ ?_
  · rintro ls rest t ⟨markup, before, hmarkup, hlexemes⟩ hread
    exact ⟨fun c hc => hmarkup.decimal c (Grammar.mem_of_expression hlexemes hread c hc),
      Grammar.runsBelow_of_expression Grammar.interrupted_digits (by decide) hmarkup.short hlexemes hread⟩
  · rintro ls rest t ⟨markup, before, hmarkup, hlexemes⟩ hread
    refine ⟨fun c hc hdigit => ?_, Grammar.runsBelow_of_argument Grammar.interrupted_digits (by decide)
      (by decide) (by decide) hmarkup.short hlexemes hread⟩
    rcases Grammar.mem_of_argument hlexemes hread c hc with hc | rfl | rfl
    · exact hmarkup.decimal c hc hdigit
    · exact absurd hdigit (by decide)
    · exact absurd hdigit (by decide)

/-! ## Markup in a segment -/

namespace Segment

theorem dropHyphen_suffix (s : List Char) : dropHyphen s <:+ s := by
  unfold dropHyphen
  split
  · exact List.suffix_cons '-' _
  · exact List.suffix_rfl

theorem dropHyphenAtEnd_isPrefix (s : List Char) : dropHyphenAtEnd s <+: s := by
  rw [← List.reverse_suffix, dropHyphenAtEnd, List.reverse_reverse]
  exact dropHyphen_suffix s.reverse

theorem prefix_of_dropEnding? {mark : Char} {s front : List Char} (h : dropEnding? mark s = some front) :
    front <+: s := by
  unfold dropEnding? at h
  split at h
  · next c rest hreverse =>
    split at h
    · cases h
      rw [← List.reverse_suffix, List.reverse_reverse, hreverse]
      exact (List.suffix_cons c rest).trans (List.suffix_cons '}' _)
    · cases h
  · cases h

variable {s : Segment} {name markup : List Char}

/-- The markup of a tag stands in it. -/
theorem within_of_tag? (h : s.tag? = some (name, markup)) : markup <:+: s.chars := by
  unfold tag? tagParts? at h
  dsimp only at h
  split at h
  · cases h
  · obtain ⟨front, hfront, heq⟩ := Option.map_eq_some_iff.mp h
    cases heq
    have hbody := (trimLeft_suffix (dropHyphen (s.chars.drop 2))).trans
      ((dropHyphen_suffix _).trans (List.drop_suffix 2 s.chars))
    have hrest := (trimLeft_suffix _).trans ((List.dropWhile_suffix isWordChar).trans hbody)
    exact ((dropHyphenAtEnd_isPrefix front).trans (prefix_of_dropEnding? hfront)).isInfix.trans hrest.isInfix

/-- The markup of an output stands in it. -/
theorem within_of_output? (h : s.output? = some markup) : markup <:+: s.chars := by
  obtain ⟨front, hfront, rfl⟩ := Option.map_eq_some_iff.mp h
  exact ((dropHyphenAtEnd_isPrefix front).trans (prefix_of_dropEnding? hfront)).isInfix.trans
    ((dropHyphen_suffix _).trans (List.drop_suffix 2 s.chars)).isInfix

/-- Nothing in the segment can make the host fail: it is literal text, or it has no ranges and no long
numerals, or its digits are decimal digits and its numerals are not long even for floating-point numbers. -/
def Harmless (s : Segment) : Prop := s.kind = .text ∨ HasNoDots s.chars ∨ HasPlainDigits s.chars

end Segment

/-! ## Whole templates -/

/-- Whatever a segment of such a kind fails with is an error of the template. -/
theorem safeSegment_isTemplate (options : ParseOptions) {p : Segment.Placed} {T : List Char → Prop}
    (htexts : SafeTexts Failure.IsTemplate T) (hp : p.segment.kind = .text ∨ T p.segment.chars) :
    SafeSegment options p Failure.IsTemplate Failure.IsTemplate T where
  texts := htexts
  output {markup} houtput := by
    obtain ⟨hkind, hmarkup⟩ := houtput
    rcases hp with htext | hp
    · rw [hkind] at htext
      cases htext
    · exact htexts.within (Segment.within_of_output? hmarkup) hp
  tag {tag markup} htag := by
    obtain ⟨hkind, name, hmarkup, -⟩ := htag
    rcases hp with htext | hp
    · rw [hkind] at htext
      cases htext
    · exact htexts.within (Segment.within_of_tag? hmarkup) hp
  failure he := he
  placed _ _ := ⟨_, rfl⟩
  nesting := ⟨_, rfl⟩

theorem Segment.Harmless.take (options : ParseOptions) {p : Segment.Placed} (hp : p.segment.Harmless)
    (b : Builder) : FailsOnly Failure.IsTemplate (b.take options p).outcome := by
  rcases hp with htext | hdots | hdigits
  · exact (safeSegment_isTemplate options safeTexts_noDots (.inl htext)).take b
  · exact (safeSegment_isTemplate options safeTexts_noDots (.inr hdots)).take b
  · exact (safeSegment_isTemplate options safeTexts_plainDigits (.inr hdigits)).take b

theorem failsOnly_parseBody (options : ParseOptions) {source : List Char}
    (hsource : ∀ s ∈ Segment.scan source, s.Harmless) :
    FailsOnly Failure.IsTemplate (parseBody options source).outcome := by
  have hplaced (line : Option Nat) {e : Failure} (he : e.IsTemplate) :
      (placed line options.name e).IsTemplate := by
    obtain ⟨t, rfl⟩ := he
    exact ⟨_, rfl⟩
  rw [outcome_parseBody]
  split
  · exact failsOnly_error ⟨_, rfl⟩
  · dsimp only
    refine FailsOnly.bind (fun e he => ?_) fun b _ => ?_
    · obtain ⟨before, p, later, b, f, hsplit, -, hfails, rfl⟩ := Builder.exists_of_takeAll_eq_error he
      have hp : p.segment ∈ Segment.scan source := by
        rw [← Segment.map_segment_place (if options.numbered then some 1 else none) (Segment.scan source)]
        refine List.mem_map_of_mem ?_
        rw [← Segment.scanPlaced, hsplit]
        exact List.mem_append_right _ List.mem_cons_self
      exact hplaced _ ((hsource _ hp).take options b f hfails)
    · refine FailsOnly.mapError (fun f hf => ?_) fun _ => hplaced _
      obtain ⟨tag, around, -, rfl⟩ := Builder.finish_eq_error hf
      exact ⟨_, rfl⟩

/-- **Parsing gives a template or a template error**, whatever the source, its error mode, the counting of
lines, the limit of nesting and the tags that are registered, if every tag and output in the source is
harmless. -/
theorem parse_total (env : Environment) (overrides : ParseOverrides) (name : Option String)
    (source : String) (options : ParseOptions) (hoptions : env.parseOptions overrides name = .ok options)
    (hsource : ∀ s ∈ Segment.scan source.toList, s.Harmless) :
    (∃ t, (env.parse overrides name source).1 = .ok t) ∨
      ∃ e, (env.parse overrides name source).1 = .error (.template e) := by
  cases hparse : (env.parse overrides name source).1 with
  | ok t => exact .inl ⟨t, rfl⟩
  | error e =>
    obtain ⟨f, hf, rfl⟩ := Environment.error_of_parse hoptions hparse
    obtain ⟨t, rfl⟩ := failsOnly_parseBody options hsource f hf
    exact .inr ⟨_, rfl⟩

/-- A range that is made at once, and a digit that has no decimal value. -/
def harmlessSource : String :=
  "\x7b\x7b (1..3) | join: ', ' \x7d\x7d of \x7b\x7b \"²\" | append: x \x7d\x7d"

theorem parse_total_harmlessSource :
    (({} : Environment).parseOptions {} none = .ok {} ∧
      ∀ s ∈ Segment.scan harmlessSource.toList, s.Harmless) ∧
    ((∃ t, (({} : Environment).parse {} none harmlessSource).1 = .ok t) ∨
      ∃ e, (({} : Environment).parse {} none harmlessSource).1 = .error (.template e)) := by
  have hscan : Segment.scan harmlessSource.toList =
      [⟨.output, "\x7b\x7b (1..3) | join: ', ' \x7d\x7d".toList⟩, ⟨.text, " of ".toList⟩,
        ⟨.output, "\x7b\x7b \"²\" | append: x \x7d\x7d".toList⟩] := by
    decide +kernel
  have hrange : HasPlainDigits "\x7b\x7b (1..3) | join: ', ' \x7d\x7d".toList :=
    ⟨by decide +kernel, runsBelow_of_length (by decide +kernel)⟩
  have hdigit : HasNoDots "\x7b\x7b \"²\" | append: x \x7d\x7d".toList :=
    ⟨runsBelow_of_none (by decide) (by decide +kernel), runsBelow_of_length (by decide +kernel)⟩
  have hsource : ∀ s ∈ Segment.scan harmlessSource.toList, s.Harmless := by
    rw [hscan]
    exact List.forall_mem_cons.mpr ⟨.inr (.inr hrange), List.forall_mem_cons.mpr ⟨.inl rfl,
      List.forall_mem_singleton.mpr (.inr (.inl hdigit))⟩⟩
  exact ⟨⟨rfl, hsource⟩, parse_total {} {} none harmlessSource {} rfl hsource⟩

/-- A range that is made at once, with an end that starts with a digit without a decimal value, makes the
host fail. -/
theorem parse_superscript_range :
    ∃ text, (({} : Environment).parse {} none "\x7b\x7b (\"²\"..3) \x7d\x7d").1 =
      .error (.badValue text) := by
  have hcause : ((({} : Environment).parse {} none "\x7b\x7b (\"²\"..3) \x7d\x7d").1.map
      fun _ => ()).mapError Failure.cause? = .error (some .badValue) := by
    decide +kernel
  cases hparse : (({} : Environment).parse {} none "\x7b\x7b (\"²\"..3) \x7d\x7d").1 with
  | ok t =>
    rw [hparse] at hcause
    cases hcause
  | error e =>
    rw [hparse] at hcause
    cases e with
    | template e => cases hcause
    | host e =>
      obtain ⟨cause, text⟩ := e
      cases hcause
      exact ⟨text, rfl⟩

end Stencil
