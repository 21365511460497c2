import Stencil.Proofs.Fallible
import Stencil.Proofs.Tree.Reading
import Stencil.Template.Basic

/-!
# Which templates are read

A template is read just if its segments are a body of the grammar, its tree is then their derivation, and
what is refused for its structure is refused with an error of the parser (`parse_follows_grammar`).
-/

namespace Stencil

open Parsing

/-! ## Errors of the parser -/

/-- The failure tells of a malformed template or of blocks that are nested too deeply. -/
def Failure.IsParseError (e : Failure) : Prop :=
  ∃ error : TemplateError, e = .template error ∧ (error.kind = .malformed ∨ error.kind = .nesting)

theorem isParseError_of_complain {α : Type} {c : Complaint} {e : Failure}
    (he : (complain c : Outcome α) = .error e) : e.IsParseError := by
  cases he
  exact ⟨c.toError, rfl, .inl rfl⟩

theorem Failure.IsParseError.placed {e : Failure} (he : e.IsParseError) (line : Option Nat)
    (name : Option String) : (Parsing.placed line name e).IsParseError := by
  obtain ⟨error, rfl, hkind⟩ := he
  exact ⟨error.locate (line.map Int.ofNat) name, rfl, hkind⟩

theorem Failure.IsParseError.withSource {e : Failure} (he : e.IsParseError) (source : String) :
    (Template.withSource source e).IsParseError := by
  obtain ⟨error, rfl, hkind⟩ := he
  exact ⟨_, rfl, hkind⟩

/-- The markup of the segment can be read, as far as it is looked at: as that of an output, of a tag of
its kind, or of the head of a part. -/
structure Segment.Placed.Valid (options : ParseOptions) (p : Segment.Placed) : Prop where
  output {markup : List Char} (houtput : p.IsOutput markup) :
    ∃ o, (Builder.readOutput options p.line markup).outcome = .ok o
  tag {tag : Tag} {markup : List Char} {kind : TagKind} (htag : p.IsTag tag markup)
    (hkind : options.tags.get? tag.name = some kind) :
    ∃ reading, (Builder.readTag options kind tag markup).outcome = .ok reading
  condition {tag : Tag} {markup : List Char} (htag : p.IsBare options tag markup)
    (hname : tag.name = "elsif") (block : String) :
    ∃ c, (Builder.readCondition options p.line block markup).outcome = .ok c
  alternatives {tag : Tag} {markup : List Char} (htag : p.IsBare options tag markup)
    (hname : tag.name = "when") : ∃ values, (Fragment.alternatives markup).mapM Expr.read = .ok values

namespace Builder

section

variable {options : ParseOptions} {b : Builder} {p : Segment.Placed} {e : Failure}

theorem isParseError_of_refuse {α : Type} {f : Frame} {name : String}
    (he : (refuse f name : Parsing α).outcome = .error e) : e.IsParseError := by
  rw [refuse, outcome_ofOutcome] at he
  exact isParseError_of_complain he

/-- A block refuses a tag only for its name, for alternatives that are missing, or for an else with
markup. -/
theorem isParseError_of_readPart (hvalid : p.Valid options) {f : Frame} {tag : Tag}
    {markup : List Char} (htag : p.IsBare options tag markup)
    (he : (readPart options f tag.name p.line markup).outcome = .error e) : e.IsParseError := by
  unfold readPart at he
  split at he
  · cases he
  · -- a choice, a case, a loop, a comment, and the blocks without parts
    split at he
    · split at he
      · next hname =>
        obtain ⟨c, hc⟩ := hvalid.condition htag (beq_iff_eq.mp hname) f.tag.name
        rw [outcome_bind _ fun _ => steady_pure _, hc] at he
        cases he
      · split at he
        · cases he
        · exact isParseError_of_refuse he
    · split at he
      · next hname =>
        split at he
        · rw [outcome_ofOutcome] at he
          exact isParseError_of_complain he
        · obtain ⟨values, hvalues⟩ := hvalid.alternatives htag (beq_iff_eq.mp hname)
          rw [outcome_bind _ fun _ => steady_pure _, outcome_ofOutcome, hvalues] at he
          cases he
      · split at he
        · split at he
          · cases he
          · rw [outcome_ofOutcome] at he
            exact isParseError_of_complain he
        · exact isParseError_of_refuse he
    · split at he
      · cases he
      · exact isParseError_of_refuse he
    · cases he
    · exact isParseError_of_refuse he

/-- A registered tag with valid markup is refused only where a block would be nested too deeply. -/
theorem isParseError_of_takeTag (hvalid : p.Valid options) {tag : Tag} {markup : List Char}
    {kind : TagKind} (htag : p.IsTag tag markup) (hkind : options.tags.get? tag.name = some kind)
    (he : (takeTag options b kind tag markup).outcome = .error e) : e.IsParseError := by
  obtain ⟨reading, hread⟩ := hvalid.tag htag hkind
  rw [outcome_takeTag, hread] at he
  cases reading with
  | node node => cases he
  | verbatim => cases he
  | opens opening guard =>
    dsimp only [Except.bind] at he
    rw [outcome_openBlock] at he
    split at he
    · cases he
    · cases he
      exact ⟨_, rfl, .inr rfl⟩

/-- A segment with valid markup is refused only for its structure. -/
theorem isParseError_of_take (hvalid : p.Valid options)
    (he : (b.take options p).outcome = .error e) : e.IsParseError := by
  unfold take at he
  dsimp only at he
  split at he
  · cases he
  · -- a text, an output, a tag
    split at he
    · cases he
    · next hkind =>
      split at he
      · rw [outcome_ofOutcome] at he
        exact isParseError_of_complain he
      · -- an output that is closed is not refused, for its markup is valid
        next markup houtput =>
        obtain ⟨o, ho⟩ := hvalid.output ⟨hkind, houtput⟩
        rw [outcome_bind _ fun _ => steady_pure _, ho] at he
        cases he
    · next hkind =>
      split at he
      · rw [outcome_ofOutcome] at he
        exact isParseError_of_complain he
      · -- a tag is registered, stands outside any block, or is left to the innermost one
        next name markup htag =>
        have hp : p.IsTag ⟨String.ofList name, String.ofList markup, p.line⟩ markup :=
          ⟨hkind, name, htag, rfl⟩
        split at he
        · next kind hregistered => exact isParseError_of_takeTag hvalid hp hregistered he
        · next hnone =>
          split at he
          · rw [refuseOuter, outcome_ofOutcome] at he
            exact isParseError_of_complain he
          · next f rest hframes =>
            rw [outcome_takePart] at he
            exact isParseError_of_readPart hvalid ⟨hp, hnone⟩ (map_eq_error_iff.mp he)

theorem isParseError_of_takeAll {segments : List Segment.Placed}
    (hvalid : ∀ p ∈ segments, p.Valid options)
    (he : (takeAll options b segments).outcome = .error e) : e.IsParseError := by
  induction segments generalizing b with
  | nil => cases he
  | cons p rest ih =>
    rw [outcome_takeAll_cons] at he
    cases htake : (b.take options p).outcome with
    | error e' =>
      rw [htake] at he
      cases he
      exact (isParseError_of_take (hvalid p List.mem_cons_self) htake).placed p.line options.name
    | ok next =>
      rw [htake] at he
      exact ih (fun q hq => hvalid q (List.mem_cons_of_mem p hq)) he

/-- A tree is finished when nothing is left open. -/
theorem finish_eq_ok_iff {body : Body} :
    b.finish = .ok body ↔ b.verbatim = none ∧ b.frames = [] ∧ body = b.nodes.reverse := by
  obtain ⟨outer, frames, verbatim, trimNext⟩ := b
  unfold finish
  constructor
  · intro h
    split at h
    · cases h
    · cases h
    · next hverbatim hframes =>
      cases h
      exact ⟨hverbatim, hframes, rfl⟩
  · rintro ⟨rfl, rfl, rfl⟩
    rfl

theorem isParseError_of_finish (he : b.finish = .error e) : e.IsParseError := by
  unfold finish at he
  dsimp only at he
  split at he
  · cases he
    exact ⟨_, rfl, .inl rfl⟩
  · cases he
    exact ⟨_, rfl, .inl rfl⟩
  · cases he

end

end Builder

/-! ## Whole templates -/

section

variable {options : ParseOptions} {source : List Char}

theorem outcome_parseBody (options : ParseOptions) (source : List Char) :
    (parseBody options source).outcome =
      if options.maxDepth ≤ 0 then
        .error (.template { TemplateError.nestingTooDeep with templateName := options.name })
      else
        let segments := Segment.scanPlaced options.numbered source
        (Builder.takeAll options {} segments).outcome.bind fun b =>
          b.finish.mapError (placed (lastLine options.numbered segments) options.name) := by
  unfold parseBody
  split
  · rfl
  · dsimp only
    have hsteady (b : Builder) : Steady (locate (lastLine options.numbered
        (Segment.scanPlaced options.numbered source)) options.name (ofOutcome b.finish)) :=
      steady_locate (steady_ofOutcome _)
    rw [outcome_bind _ hsteady]
    congr 1
    funext b
    rw [outcome_locate, outcome_ofOutcome]

/-- A tree is read when the builder takes all segments and leaves nothing open. -/
theorem parseBody_eq_ok_iff {body : Body} :
    (parseBody options source).outcome = .ok body ↔
      1 ≤ options.maxDepth ∧ ∃ b : Builder,
        Builder.Builds options {} (Segment.scanPlaced options.numbered source) b ∧
        b.verbatim = none ∧ b.frames = [] ∧ body = b.nodes.reverse := by
  rw [outcome_parseBody]
  by_cases hdepth : options.maxDepth ≤ 0
  · rw [if_pos hdepth]
    constructor
    · exact fun h => nomatch h
    · exact fun h => absurd h.1 (by omega)
  · rw [if_neg hdepth]
    dsimp only
    unfold Builder.Builds
    cases htake : (Builder.takeAll options {}
        (Segment.scanPlaced options.numbered source)).outcome with
    | error e =>
      constructor
      · exact fun h => nomatch h
      · rintro ⟨-, b, hb, -⟩
        cases hb
    | ok b =>
      dsimp only [Except.bind]
      cases hfinish : b.finish with
      | error e =>
        constructor
        · exact fun h => nomatch h
        · rintro ⟨-, b', hb, hrest⟩
          cases hb
          rw [Builder.finish_eq_ok_iff.mpr hrest] at hfinish
          cases hfinish
      | ok body' =>
        have hopen := Builder.finish_eq_ok_iff.mp hfinish
        constructor
        · intro h
          cases h
          exact ⟨by omega, b, rfl, hopen⟩
        · rintro ⟨-, b', hb, -, -, rfl⟩
          cases hb
          rw [hopen.2.2]
          rfl

theorem isParseError_of_parseBody {e : Failure}
    (hvalid : ∀ p ∈ Segment.scanPlaced options.numbered source, p.Valid options)
    (he : (parseBody options source).outcome = .error e) : e.IsParseError := by
  rw [outcome_parseBody] at he
  split at he
  · cases he
    exact ⟨_, rfl, .inr rfl⟩
  · dsimp only at he
    cases htake : (Builder.takeAll options {}
        (Segment.scanPlaced options.numbered source)).outcome with
    | error e' =>
      rw [htake] at he
      cases he
      exact Builder.isParseError_of_takeAll hvalid htake
    | ok b =>
      rw [htake] at he
      dsimp only [Except.bind] at he
      cases hfinish : b.finish with
      | ok body =>
        rw [hfinish] at he
        cases he
      | error e' =>
        rw [hfinish] at he
        cases he
        exact (Builder.isParseError_of_finish hfinish).placed _ _

/-- A derivation is built from nothing, and is what a reader of the tree meets. -/
theorem parseBody_of_derives {kept : List Segment.Placed} (hdepth : 1 ≤ options.maxDepth)
    (hderives : Derives options .body 1 (Segment.scanPlaced options.numbered source) kept) :
    ∃ body, (parseBody options source).outcome = .ok body ∧
      List.Forall₂ (Segment.Placed.Reads options) kept (Node.marksOfBody body) := by
  obtain ⟨b, marks, hbuilds, ⟨nodes, trimNext, rfl, hnodes⟩, hmarks⟩ :=
    Builder.built_of_derives hderives {} rfl rfl
  refine ⟨nodes.reverse, parseBody_eq_ok_iff.mpr ⟨hdepth, _, hbuilds, rfl, rfl, rfl⟩, ?_⟩
  have hempty : Node.marksOfBody (Builder.current {}).reverse = [] := by
    rw [Builder.current, List.reverse_nil, Node.marksOfBody]
  rw [hnodes, hempty, List.nil_append]
  exact hmarks

/-- A tree that is read is read of a derivation. -/
theorem derives_of_parseBody {body : Body}
    (hraw : ∀ p ∈ Segment.scanPlaced options.numbered source, ∀ tag markup, p.IsTag tag markup →
      options.tags.get? tag.name ≠ some .raw)
    (hparse : (parseBody options source).outcome = .ok body) :
    1 ≤ options.maxDepth ∧ ∃ kept,
      Derives options .body 1 (Segment.scanPlaced options.numbered source) kept := by
  obtain ⟨hdepth, b, hbuilds, -, hframes, -⟩ := parseBody_eq_ok_iff.mp hparse
  refine ⟨hdepth, Builder.derives_of_builds (fun p hp tag htag => ?_) hbuilds hframes⟩
  obtain ⟨markup, kind, htag, hkind, hread⟩ := htag
  cases Builder.readsAs_of_readTag hread
  exact hraw p hp tag markup htag hkind

end

namespace Environment

variable {env : Environment} {overrides : ParseOverrides} {name : Option String} {source : String}
  {options : ParseOptions}

theorem parse_eq (hoptions : env.parseOptions overrides name = .ok options) :
    (env.parse overrides name source).1 =
      match (parseBody options source.toList).outcome with
      | .ok body => .ok { name, body, warnings := ((parseBody options source.toList).run []).2 }
      | .error e => .error (Template.withSource source e) := by
  unfold parse
  rw [hoptions]
  rfl

theorem body_of_parse (hoptions : env.parseOptions overrides name = .ok options) {t : Template}
    (ht : (env.parse overrides name source).1 = .ok t) :
    (parseBody options source.toList).outcome = .ok t.body := by
  rw [parse_eq hoptions] at ht
  cases hbody : (parseBody options source.toList).outcome with
  | error e =>
    rw [hbody] at ht
    cases ht
  | ok body =>
    rw [hbody] at ht
    cases ht
    rfl

/-- A template that has just been read has recorded nothing. -/
theorem errors_of_parse (hoptions : env.parseOptions overrides name = .ok options) {t : Template}
    (ht : (env.parse overrides name source).1 = .ok t) : t.errors = [] := by
  have hbody := body_of_parse hoptions ht
  rw [parse_eq hoptions, hbody] at ht
  have hfresh : [] = t.errors := congrArg Template.errors (Except.ok.inj ht)
  exact hfresh.symm

theorem parse_of_body (hoptions : env.parseOptions overrides name = .ok options) {body : Body}
    (hbody : (parseBody options source.toList).outcome = .ok body) :
    ∃ t, (env.parse overrides name source).1 = .ok t := by
  rw [parse_eq hoptions, hbody]
  exact ⟨_, rfl⟩

end Environment

/-- **The parser accepts exactly its block grammar, and loses nothing.** Of a source in which no tag is a
raw one, a template is read just if at least one level of nesting is allowed and its segments are a body
of the grammar. The tree is then the derivation: a reader meets the segments that the grammar keeps, each
of them once and in the order of the source. When the markup of every segment is valid, whatever is
refused is refused as malformed or as nested too deeply. -/
theorem parse_follows_grammar (env : Environment) (overrides : ParseOverrides) (name : Option String)
    (source : String) (options : ParseOptions)
    (hoptions : env.parseOptions overrides name = .ok options)
    (hraw : ∀ p ∈ Segment.scanPlaced options.numbered source.toList, ∀ tag markup,
      p.IsTag tag markup → options.tags.get? tag.name ≠ some .raw) :
    ((∃ t, (env.parse overrides name source).1 = .ok t) ↔ 1 ≤ options.maxDepth ∧
      ∃ kept, Derives options .body 1 (Segment.scanPlaced options.numbered source.toList) kept) ∧
    (∀ t, (env.parse overrides name source).1 = .ok t → ∃ kept,
      Derives options .body 1 (Segment.scanPlaced options.numbered source.toList) kept ∧
      kept.Sublist (Segment.scanPlaced options.numbered source.toList) ∧
      List.Forall₂ (Segment.Placed.Reads options) kept (Node.marksOfBody t.body)) ∧
    ((∀ p ∈ Segment.scanPlaced options.numbered source.toList, p.Valid options) →
      ∀ e, (env.parse overrides name source).1 = .error e → e.IsParseError) := by
  have hread : ∀ t, (env.parse overrides name source).1 = .ok t →
      1 ≤ options.maxDepth ∧ ∃ kept,
        Derives options .body 1 (Segment.scanPlaced options.numbered source.toList) kept ∧
        List.Forall₂ (Segment.Placed.Reads options) kept (Node.marksOfBody t.body) := by
    intro t ht
    have hbody := Environment.body_of_parse hoptions ht
    obtain ⟨hdepth, kept, hderives⟩ := derives_of_parseBody hraw hbody
    obtain ⟨body, hbody', hmarks⟩ := parseBody_of_derives hdepth hderives
    -- the derivation is built in one way only
    cases hbody'.symm.trans hbody
    exact ⟨hdepth, kept, hderives, hmarks⟩
  refine ⟨⟨?_, ?_⟩, ?_, ?_⟩
  · rintro ⟨t, ht⟩
    obtain ⟨hdepth, kept, hderives, -⟩ := hread t ht
    exact ⟨hdepth, kept, hderives⟩
  · rintro ⟨hdepth, kept, hderives⟩
    obtain ⟨body, hbody, -⟩ := parseBody_of_derives hdepth hderives
    exact Environment.parse_of_body hoptions hbody
  · intro t ht
    obtain ⟨-, kept, hderives, hmarks⟩ := hread t ht
    exact ⟨kept, hderives, hderives.sublist, hmarks⟩
  · intro hvalid e he
    rw [Environment.parse_eq hoptions] at he
    cases hbody : (parseBody options source.toList).outcome with
    | ok body =>
      rw [hbody] at he
      cases he
    | error e' =>
      rw [hbody] at he
      cases he
      exact (isParseError_of_parseBody hvalid hbody).withSource source

/-- A choice between an output and a text, behind a text. -/
def choiceSource : String := "a\x7b% if x %\x7d\x7b\x7b x \x7d\x7d\x7b% else %\x7db\x7b% endif %\x7d"

/-- All six segments stand in the tree of the choice. -/
theorem parse_follows_grammar_choiceSource :
    ({} : Environment).parseOptions {} none = .ok {} ∧
      (∀ p ∈ Segment.scanPlaced true choiceSource.toList, ∀ tag markup, p.IsTag tag markup →
        builtinTags.get? tag.name ≠ some .raw) ∧
      ∃ t kept, (({} : Environment).parse {} none choiceSource).1 = .ok t ∧
        Derives {} .body 1 (Segment.scanPlaced true choiceSource.toList) kept ∧ kept.length = 6 ∧
        List.Forall₂ (Segment.Placed.Reads {}) kept (Node.marksOfBody t.body) := by
  have hnames : (Segment.scanPlaced true choiceSource.toList).all (fun p =>
      (p.segment.tag?.bind fun part => builtinTags.get? (String.ofList part.1)) != some .raw) =
        true := by decide +kernel
  have hraw : ∀ p ∈ Segment.scanPlaced true choiceSource.toList, ∀ tag markup, p.IsTag tag markup →
      builtinTags.get? tag.name ≠ some .raw := by
    rintro p hp tag markup ⟨-, name, htag, rfl⟩ hget
    have hnot := List.all_eq_true.mp hnames p hp
    rw [htag, Option.bind_some, hget] at hnot
    exact absurd hnot (by decide)
  have hlength : (({} : Environment).parse {} none choiceSource).1.toOption.map
      (fun t => (Node.marksOfBody t.body).length) = some 6 := by decide +kernel
  have hfollows := parse_follows_grammar {} {} none choiceSource {} rfl hraw
  cases ht : (({} : Environment).parse {} none choiceSource).1 with
  | error e =>
    rw [ht] at hlength
    cases hlength
  | ok t =>
    obtain ⟨kept, hderives, -, hmarks⟩ := hfollows.2.1 t ht
    rw [ht] at hlength
    refine ⟨rfl, hraw, t, kept, rfl, hderives, ?_, hmarks⟩
    rw [hmarks.length_eq]
    exact Option.some.inj hlength

end Stencil
