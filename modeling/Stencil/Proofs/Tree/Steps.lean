import Stencil.Proofs.Tree.Outcome

/-!
# What a segment does to the tree that is built

The builder as a relation: `Takes options b p b'` has one case for everything that taking the segment `p`
can do, and `take_eq_ok_iff` says that this is what the builder does. `Builds options b segments b'` is
the same for segments one after another.
-/

namespace Stencil

open Parsing

/-! ## Segments as tags and outputs -/

namespace Segment.Placed

/-- The segment is an output that is properly closed, with this markup. -/
def IsOutput (p : Placed) (markup : List Char) : Prop :=
  p.segment.kind = .output ∧ p.segment.output? = some markup

/-- The segment is a tag that is properly closed, with this markup. -/
def IsTag (p : Placed) (tag : Tag) (markup : List Char) : Prop :=
  p.segment.kind = .tag ∧ ∃ name, p.segment.tag? = some (name, markup) ∧
    tag = ⟨String.ofList name, String.ofList markup, p.line⟩

variable (options : ParseOptions)

/-- The segment is a registered tag that is read so. -/
def IsRegistered (p : Placed) (tag : Tag) (reading : TagReading) : Prop :=
  ∃ markup kind, p.IsTag tag markup ∧ options.tags.get? tag.name = some kind ∧
    (Builder.readTag options kind tag markup).outcome = .ok reading

/-- The segment is a tag that is not registered. -/
def IsBare (p : Placed) (tag : Tag) (markup : List Char) : Prop :=
  p.IsTag tag markup ∧ options.tags.get? tag.name = none

end Segment.Placed

namespace Builder

/-! ## Reading tags -/

section

variable {options : ParseOptions} {kind : TagKind} {tag : Tag} {markup : List Char}

/-- An output keeps its markup and its line. -/
theorem readOutput_eq_ok {line : Option Nat} {o : Output}
    (hread : (readOutput options line markup).outcome = .ok o) :
    o.markup = String.ofList markup ∧ o.line = line := by
  obtain ⟨pipeline, -, ho⟩ := (outcome_bind_eq_ok fun _ => steady_pure _).mp hread
  cases ho
  exact ⟨rfl, rfl⟩

theorem readBy_of_readOutput {line : Option Nat} {o : Output}
    (hread : (readOutput options line markup).outcome = .ok o) :
    ReadBy Pipeline.readStrict Pipeline.readLax o.pipeline := by
  obtain ⟨pipeline, hpipeline, ho⟩ := (outcome_bind_eq_ok fun _ => steady_pure _).mp hread
  cases ho
  exact readBy_of_select hpipeline

/-- What a tag of a kind can be read as. A block stands behind a condition from its first part on if it
is a choice, and behind nothing otherwise. -/
inductive ReadsAs (tag : Tag) : TagKind → TagReading → Prop
  | assign (target : String) (source : Output) (hline : source.line = tag.line)
    (hread : ReadBy Pipeline.readStrict Pipeline.readLax source.pipeline) :
    ReadsAs tag .assign (.node (.assign tag target source))
  | leave : ReadsAs tag .leave (.node (.interrupt tag .leave))
  | skip : ReadsAs tag .skip (.node (.interrupt tag .skip))
  | cycle (group : Expr) (values : List Expr) (hread : ∃ markup, readCycle markup = .ok (group, values)) :
    ReadsAs tag .cycle (.node (.cycle tag group values))
  | shout : ReadsAs tag .shout (.node (.leaf tag .shout))
  | scopeDepth : ReadsAs tag .scopeDepth (.node (.leaf tag .scopeDepth))
  | plain : ReadsAs tag .plain (.node (.leaf tag .plain))
  | choose (c : Condition) (hread : ReadBy Condition.readStrict (Condition.readLax tag.name) c) :
    ReadsAs tag .choose (.opens (.choose false) (.condition c))
  | negated (c : Condition) (hread : ReadBy Condition.readStrict (Condition.readLax tag.name) c) :
    ReadsAs tag .negated (.opens (.choose true) (.condition c))
  | case (subject : Expr) (hread : ∃ s, Expr.read s = .ok subject) :
    ReadsAs tag .case (.opens (.case subject) .opening)
  | loop (header : LoopHeader) (hread : ReadBy LoopHeader.readStrict LoopHeader.readLax header) :
    ReadsAs tag .loop (.opens (.loop header) .opening)
  | table (header : TableHeader) (hread : ∃ markup, TableHeader.read markup = .ok header) :
    ReadsAs tag .table (.opens (.table header) .opening)
  | capture (target : String) : ReadsAs tag .capture (.opens (.block (.capture target)) .opening)
  | changed : ReadsAs tag .changed (.opens (.block .changed) .opening)
  | comment : ReadsAs tag .comment (.opens (.block .comment) .opening)
  | repeated (count : Nat) : ReadsAs tag .repeated (.opens (.block (.repeated count)) .opening)
  | wrap : ReadsAs tag .wrap (.opens (.block .wrap) .opening)
  | raw : ReadsAs tag .raw .verbatim

theorem readsAs_of_readTag {reading : TagReading}
    (hread : (readTag options kind tag markup).outcome = .ok reading) : ReadsAs tag kind reading := by
  -- a tag that goes on with what it read ends well only if that was read
  have hafter {α : Type} {x : Parsing α} {f : α → TagReading}
      (hx : (x >>= fun a => pure (f a)).outcome = .ok reading) :
      ∃ a, x.outcome = .ok a ∧ reading = f a := by
    obtain ⟨a, ha, hreading⟩ := (outcome_bind_eq_ok fun _ => steady_pure _).mp hx
    exact ⟨a, ha, (Except.ok.inj hreading).symm⟩
  unfold readTag at hread
  dsimp only at hread
  cases kind with
  | assign =>
    dsimp only at hread
    split at hread
    · cases hread
    · obtain ⟨o, ho, rfl⟩ := hafter hread
      exact .assign _ o (readOutput_eq_ok ho).2 (readBy_of_readOutput ho)
  | capture =>
    dsimp only at hread
    split at hread
    · cases hread
    · cases hread
      exact .capture _
  | case =>
    dsimp only at hread
    split at hread
    · cases hread
    · next s _ _ =>
      obtain ⟨subject, hsubject, rfl⟩ := hafter hread
      exact .case subject ⟨s, (outcome_ofOutcome _).symm.trans hsubject⟩
  | cycle =>
    obtain ⟨⟨group, values⟩, hcycle, rfl⟩ := hafter hread
    exact .cycle group values ⟨markup, (outcome_ofOutcome _).symm.trans hcycle⟩
  | loop =>
    obtain ⟨header, hheader, rfl⟩ := hafter hread
    exact .loop header (readBy_of_select hheader)
  | choose =>
    obtain ⟨c, hc, rfl⟩ := hafter hread
    exact .choose c (readBy_of_select hc)
  | negated =>
    obtain ⟨c, hc, rfl⟩ := hafter hread
    exact .negated c (readBy_of_select hc)
  | raw =>
    dsimp only at hread
    split at hread
    · cases hread
      exact .raw
    · cases hread
  | table =>
    obtain ⟨header, hheader, rfl⟩ := hafter hread
    exact .table header ⟨markup, (outcome_ofOutcome _).symm.trans hheader⟩
  | repeated =>
    obtain ⟨count, -, rfl⟩ := hafter hread
    exact .repeated count
  -- the other tags are not read, whatever their markup is
  | leave | skip | comment | changed | shout | scopeDepth | plain | wrap =>
    cases hread
    constructor

/-- A registered tag is read as its kind says. -/
theorem readsAs_of_isRegistered {p : Segment.Placed} {reading : TagReading}
    (htag : p.IsRegistered options tag reading) :
    ∃ kind, options.tags.get? tag.name = some kind ∧ ReadsAs tag kind reading := by
  obtain ⟨markup, kind, -, hkind, hread⟩ := htag
  exact ⟨kind, hkind, readsAs_of_readTag hread⟩

/-- How a block takes a tag depends on the options and on the line only where it reads the condition of a
branch, and on the block only by its name, its opening and its current part. -/
theorem readPart_of_readCondition {options' : ParseOptions} {f g : Frame} {name : String}
    {line line' : Option Nat} {reading : PartReading} (hname : g.tag.name = f.tag.name)
    (hopening : g.opening = f.opening) (hguard : g.guard = f.guard)
    (hcondition : name = "elsif" → ∀ c,
      (readCondition options line f.tag.name markup).outcome = .ok c →
        (readCondition options' line' f.tag.name markup).outcome = .ok c)
    (hread : (readPart options f name line markup).outcome = .ok reading) :
    (readPart options' g name line' markup).outcome = .ok reading := by
  obtain ⟨⟨block, _, _⟩, opening, _, guard, _⟩ := g
  obtain ⟨⟨_, _, _⟩, _, _, _, _⟩ := f
  cases hname
  cases hopening
  cases hguard
  cases opening with
  | choose negated =>
    unfold readPart at hread ⊢
    dsimp only at hread hcondition ⊢
    by_cases hends : (name == Complaint.delimiter block) = true
    · rwa [if_pos hends] at hread ⊢
    · rw [if_neg hends] at hread ⊢
      by_cases helsif : (name == "elsif") = true
      · rw [if_pos helsif] at hread ⊢
        obtain ⟨c, hc, hreading⟩ := (outcome_bind_eq_ok fun _ => steady_pure _).mp hread
        exact (outcome_bind_eq_ok fun _ => steady_pure _).mpr
          ⟨c, hcondition (beq_iff_eq.mp helsif) c hc, hreading⟩
      · rwa [if_neg helsif] at hread ⊢
  | block kind => cases kind <;> exact hread
  | _ => exact hread

end

/-! ## One segment -/

@[simp] theorem verbatim_setCurrent (b : Builder) (nodes : List Node) :
    (b.setCurrent nodes).verbatim = b.verbatim := by
  obtain ⟨outer, frames, verbatim, trimNext⟩ := b
  cases frames <;> rfl

@[simp] theorem length_frames_setCurrent (b : Builder) (nodes : List Node) :
    (b.setCurrent nodes).frames.length = b.frames.length := by
  obtain ⟨outer, frames, verbatim, trimNext⟩ := b
  cases frames <;> rfl

@[simp] theorem verbatim_add (b : Builder) (node : Node) : (b.add node).verbatim = b.verbatim :=
  verbatim_setCurrent ..

@[simp] theorem verbatim_addText (b : Builder) (s : Segment) :
    (b.addText s).verbatim = b.verbatim := verbatim_add ..

@[simp] theorem verbatim_applyTrims (b : Builder) (s : Segment) :
    (b.applyTrims s).verbatim = b.verbatim := by
  unfold applyTrims
  dsimp only
  split
  · exact verbatim_setCurrent ..
  · rfl

@[simp] theorem length_frames_applyTrims (b : Builder) (s : Segment) :
    (b.applyTrims s).frames.length = b.frames.length := by
  unfold applyTrims
  dsimp only
  split
  · exact length_frames_setCurrent ..
  · rfl

/-- What a segment does to what has been built so far, when it is taken. -/
inductive Takes (options : ParseOptions) (b : Builder) (p : Segment.Placed) : Builder → Prop
  /-- Everything inside a verbatim section is kept as it is, up to its end. -/
  | verbatim (v : Verbatim) (hverbatim : b.verbatim = some v) :
    Takes options b p (b.takeVerbatim v p.segment)
  | text (hverbatim : b.verbatim = none) (hkind : p.segment.kind = .text) :
    Takes options b p (b.addText p.segment)
  | output {markup : List Char} {o : Output} (hverbatim : b.verbatim = none)
    (houtput : p.IsOutput markup) (hread : (readOutput options p.line markup).outcome = .ok o) :
    Takes options b p ((b.applyTrims p.segment).add (.output o))
  | node {tag : Tag} {node : Node} (hverbatim : b.verbatim = none)
    (htag : p.IsRegistered options tag (.node node)) :
    Takes options b p ((b.applyTrims p.segment).add node)
  | opens {tag : Tag} {opening : Opening} {guard : Guard} (hverbatim : b.verbatim = none)
    (htag : p.IsRegistered options tag (.opens opening guard))
    (hdepth : (b.frames.length : Int) + 1 < options.maxDepth) :
    Takes options b p { b.applyTrims p.segment with
      frames := { tag, opening, guard } :: (b.applyTrims p.segment).frames }
  | raw {tag : Tag} (hverbatim : b.verbatim = none) (htag : p.IsRegistered options tag .verbatim) :
    Takes options b p { b.applyTrims p.segment with verbatim := some { tag } }
  | ends {tag : Tag} {markup : List Char} {f : Frame} {rest : List Frame}
    (hverbatim : b.verbatim = none) (htag : p.IsBare options tag markup)
    (hframes : (b.applyTrims p.segment).frames = f :: rest)
    (hread : (readPart options f tag.name p.line markup).outcome = .ok .ends) :
    Takes options b p ({ b.applyTrims p.segment with frames := rest }.add f.finish)
  | starts {tag : Tag} {markup : List Char} {f : Frame} {rest : List Frame} {guard : Guard}
    (hverbatim : b.verbatim = none) (htag : p.IsBare options tag markup)
    (hframes : (b.applyTrims p.segment).frames = f :: rest)
    (hread : (readPart options f tag.name p.line markup).outcome = .ok (.starts guard)) :
    Takes options b p { b.applyTrims p.segment with frames := f.startPart guard :: rest }
  | skipped {tag : Tag} {markup : List Char} {f : Frame} {rest : List Frame}
    (hverbatim : b.verbatim = none) (htag : p.IsBare options tag markup)
    (hframes : (b.applyTrims p.segment).frames = f :: rest)
    (hread : (readPart options f tag.name p.line markup).outcome = .ok .skipped) :
    Takes options b p (b.applyTrims p.segment)

section

variable {options : ParseOptions} {b b' : Builder} {p : Segment.Placed}

theorem outcome_openBlock (options : ParseOptions) (b : Builder) (tag : Tag) (opening : Opening)
    (guard : Guard) :
    (openBlock options b tag opening guard).outcome =
      if (b.frames.length : Int) + 1 < options.maxDepth then
        .ok { b with frames := { tag, opening, guard } :: b.frames }
      else .error (.template
        { TemplateError.nestingTooDeep with line := tag.line.map Int.ofNat }) := by
  unfold openBlock
  split <;> split <;> first | rfl | omega

/-- What a registered tag does once it is read. -/
theorem outcome_takeTag (options : ParseOptions) (b : Builder) (kind : TagKind) (tag : Tag)
    (markup : List Char) :
    (takeTag options b kind tag markup).outcome =
      (readTag options kind tag markup).outcome.bind fun
        | .node node => .ok (b.add node)
        | .opens opening guard => (openBlock options b tag opening guard).outcome
        | .verbatim => .ok { b with verbatim := some { tag } } := by
  unfold takeTag
  rw [outcome_bind]
  · congr 1
    funext reading
    cases reading <;> rfl
  · intro reading
    cases reading with
    | node node => exact steady_pure _
    | opens opening guard => exact steady_openBlock options b tag opening guard
    | verbatim => exact steady_pure _

/-- What a tag that is not registered does once it is read. -/
theorem outcome_takePart (options : ParseOptions) (b : Builder) (f : Frame) (rest : List Frame)
    (name : String) (line : Option Nat) (markup : List Char) :
    (takePart options b f rest name line markup).outcome =
      (readPart options f name line markup).outcome.map fun
        | .ends => { b with frames := rest }.add f.finish
        | .starts guard => { b with frames := f.startPart guard :: rest }
        | .skipped => b := by
  unfold takePart
  rw [outcome_bind]
  · cases (readPart options f name line markup).outcome with
    | error e => rfl
    | ok reading => cases reading <;> rfl
  · intro reading
    cases reading <;> exact steady_pure _

theorem steady_takeTag (options : ParseOptions) (b : Builder) (kind : TagKind) (tag : Tag)
    (markup : List Char) : Steady (takeTag options b kind tag markup) := by
  refine steady_bind (steady_readTag options kind tag markup) fun reading => ?_
  cases reading with
  | node node => exact steady_pure _
  | opens opening guard => exact steady_openBlock options b tag opening guard
  | verbatim => exact steady_pure _

theorem steady_takePart (options : ParseOptions) (b : Builder) (f : Frame) (rest : List Frame)
    (name : String) (line : Option Nat) (markup : List Char) :
    Steady (takePart options b f rest name line markup) := by
  refine steady_bind (steady_readPart options f name line markup) fun reading => ?_
  cases reading <;> exact steady_pure _

theorem steady_take (options : ParseOptions) (b : Builder) (p : Segment.Placed) :
    Steady (b.take options p) := by
  unfold take
  dsimp only
  split
  · exact steady_pure _
  · split
    · exact steady_pure _
    · split
      · exact steady_ofOutcome _
      · exact steady_bind steady_readOutput fun _ => steady_pure _
    · split
      · exact steady_ofOutcome _
      · split
        · exact steady_takeTag _ _ _ _ _
        · split
          · exact steady_ofOutcome _
          · exact steady_takePart _ _ _ _ _ _ _

/-- What is done with a registered tag depends on what it is read as. -/
theorem takes_of_takeTag {tag : Tag} {markup : List Char} {kind : TagKind}
    (hverbatim : b.verbatim = none) (htag : p.IsTag tag markup)
    (hkind : options.tags.get? tag.name = some kind)
    (htake : (takeTag options (b.applyTrims p.segment) kind tag markup).outcome = .ok b') :
    Takes options b p b' := by
  rw [outcome_takeTag] at htake
  cases hread : (readTag options kind tag markup).outcome with
  | error e =>
    rw [hread] at htake
    cases htake
  | ok reading =>
    rw [hread] at htake
    have hregistered : p.IsRegistered options tag reading := ⟨markup, kind, htag, hkind, hread⟩
    cases reading with
    | node node =>
      cases htake
      exact .node hverbatim hregistered
    | opens opening guard =>
      dsimp only [Except.bind] at htake
      rw [outcome_openBlock] at htake
      split at htake
      · next hdepth =>
        cases htake
        -- trimming opens and closes nothing
        rw [length_frames_applyTrims] at hdepth
        exact .opens hverbatim hregistered hdepth
      · cases htake
    | verbatim =>
      cases htake
      exact .raw hverbatim hregistered

/-- What is done with a tag that is not registered depends on what the innermost open block reads it
as. -/
theorem takes_of_takePart {tag : Tag} {markup : List Char} {f : Frame} {rest : List Frame}
    (hverbatim : b.verbatim = none) (htag : p.IsBare options tag markup)
    (hframes : (b.applyTrims p.segment).frames = f :: rest)
    (htake : (takePart options (b.applyTrims p.segment) f rest tag.name p.line markup).outcome =
      .ok b') : Takes options b p b' := by
  rw [outcome_takePart] at htake
  cases hread : (readPart options f tag.name p.line markup).outcome with
  | error e =>
    rw [hread] at htake
    cases htake
  | ok reading =>
    rw [hread] at htake
    cases reading with
    | ends =>
      cases htake
      exact .ends hverbatim htag hframes hread
    | starts guard =>
      cases htake
      exact .starts hverbatim htag hframes hread
    | skipped =>
      cases htake
      exact .skipped hverbatim htag hframes hread

/-- Whatever the builder does is one of these cases. -/
theorem takes_of_outcome (htake : (b.take options p).outcome = .ok b') : Takes options b p b' := by
  unfold take at htake
  dsimp only at htake
  split at htake
  · next v hverbatim =>
    cases htake
    exact .verbatim v hverbatim
  · next hverbatim =>
    split at htake
    · next hkind =>
      cases htake
      exact .text hverbatim hkind
    · next hkind =>
      split at htake
      · cases htake
      · next markup houtput =>
        obtain ⟨o, ho, hb⟩ := (outcome_bind_eq_ok fun _ => steady_pure _).mp htake
        cases hb
        exact .output hverbatim ⟨hkind, houtput⟩ ho
    · next hkind =>
      split at htake
      · cases htake
      · next name markup htag =>
        have hp : p.IsTag ⟨String.ofList name, String.ofList markup, p.line⟩ markup :=
          ⟨hkind, name, htag, rfl⟩
        split at htake
        · next kind hregistered => exact takes_of_takeTag hverbatim hp hregistered htake
        · next hnone =>
          split at htake
          · -- outside any block a tag must be registered
            cases htake
          · next f rest hframes => exact takes_of_takePart hverbatim ⟨hp, hnone⟩ hframes htake

/-- A registered tag is taken as a tag of its kind. -/
theorem outcome_take_registered {tag : Tag} {markup : List Char} {kind : TagKind}
    (hverbatim : b.verbatim = none) (htag : p.IsTag tag markup)
    (hget : options.tags.get? tag.name = some kind) :
    (b.take options p).outcome =
      (takeTag options (b.applyTrims p.segment) kind tag markup).outcome := by
  obtain ⟨hkind, name, htag, rfl⟩ := htag
  dsimp only at hget
  simp only [take, hverbatim, hkind, htag, hget]

/-- A tag that is not registered is taken as the innermost open block reads it. -/
theorem outcome_take_bare {tag : Tag} {markup : List Char} {f : Frame} {rest : List Frame}
    (hverbatim : b.verbatim = none) (htag : p.IsBare options tag markup)
    (hframes : (b.applyTrims p.segment).frames = f :: rest) :
    (b.take options p).outcome =
      (takePart options (b.applyTrims p.segment) f rest tag.name p.line markup).outcome := by
  obtain ⟨⟨hkind, name, htag, rfl⟩, hget⟩ := htag
  dsimp only at hget
  simp only [take, hverbatim, hkind, htag, hget, hframes]

theorem outcome_take_output {markup : List Char} (hverbatim : b.verbatim = none)
    (houtput : p.IsOutput markup) :
    (b.take options p).outcome = (readOutput options p.line markup).outcome.map fun o =>
      (b.applyTrims p.segment).add (.output o) := by
  obtain ⟨hkind, houtput⟩ := houtput
  simp only [take, hverbatim, hkind, houtput]
  rw [outcome_bind _ fun _ => steady_pure _]
  rfl

/-- The builder does everything that is one of the cases. -/
theorem Takes.outcome (htakes : Takes options b p b') : (b.take options p).outcome = .ok b' := by
  cases htakes with
  | verbatim v hverbatim =>
    simp only [take, hverbatim]
    rfl
  | text hverbatim hkind =>
    simp only [take, hverbatim, hkind]
    rfl
  | output hverbatim houtput hread =>
    rw [outcome_take_output hverbatim houtput, hread]
    rfl
  | node hverbatim htag =>
    obtain ⟨markup, kind, htag, hget, hread⟩ := htag
    rw [outcome_take_registered hverbatim htag hget, outcome_takeTag, hread]
    rfl
  | opens hverbatim htag hdepth =>
    obtain ⟨markup, kind, htag, hget, hread⟩ := htag
    rw [outcome_take_registered hverbatim htag hget, outcome_takeTag, hread]
    dsimp only [Except.bind]
    rw [outcome_openBlock, length_frames_applyTrims, if_pos hdepth]
  | raw hverbatim htag =>
    obtain ⟨markup, kind, htag, hget, hread⟩ := htag
    rw [outcome_take_registered hverbatim htag hget, outcome_takeTag, hread]
    rfl
  | ends hverbatim htag hframes hread =>
    rw [outcome_take_bare hverbatim htag hframes, outcome_takePart, hread]
    rfl
  | starts hverbatim htag hframes hread =>
    rw [outcome_take_bare hverbatim htag hframes, outcome_takePart, hread]
    rfl
  | skipped hverbatim htag hframes hread =>
    rw [outcome_take_bare hverbatim htag hframes, outcome_takePart, hread]
    rfl

/-- **The relation is what the builder does.** -/
theorem take_eq_ok_iff : (b.take options p).outcome = .ok b' ↔ Takes options b p b' :=
  ⟨takes_of_outcome, Takes.outcome⟩

/-! ## Segments one after another -/

/-- What segments do to what has been built so far, when all of them are taken. -/
def Builds (options : ParseOptions) (b : Builder) (segments : List Segment.Placed)
    (b' : Builder) : Prop := (Builder.takeAll options b segments).outcome = .ok b'

theorem steady_takeAll (options : ParseOptions) (b : Builder) (segments : List Segment.Placed) :
    Steady (Builder.takeAll options b segments) := by
  induction segments generalizing b with
  | nil => exact steady_pure b
  | cons p rest ih => exact steady_bind (steady_locate (steady_take options b p)) fun _ => ih _

theorem outcome_takeAll_cons (options : ParseOptions) (b : Builder) (p : Segment.Placed)
    (rest : List Segment.Placed) :
    (Builder.takeAll options b (p :: rest)).outcome =
      ((b.take options p).outcome.mapError (placed p.line options.name)).bind fun b =>
        (Builder.takeAll options b rest).outcome := by
  rw [Builder.takeAll, outcome_bind _ fun next => steady_takeAll options next rest, outcome_locate]

@[simp] theorem builds_nil : Builds options b [] b' ↔ b' = b := by
  constructor
  · intro h
    cases h
    rfl
  · rintro rfl
    rfl

/-- The place that a failure is given makes no difference to what is built. -/
theorem builds_cons {rest : List Segment.Placed} :
    Builds options b (p :: rest) b' ↔ ∃ next, Takes options b p next ∧ Builds options next rest b' := by
  unfold Builds
  rw [outcome_takeAll_cons]
  constructor
  · intro h
    cases htake : (b.take options p).outcome with
    | error e =>
      rw [htake] at h
      cases h
    | ok next =>
      rw [htake] at h
      exact ⟨next, takes_of_outcome htake, h⟩
  · rintro ⟨next, htakes, hrest⟩
    rw [htakes.outcome]
    exact hrest

theorem Takes.builds (htakes : Takes options b p b') : Builds options b [p] b' :=
  builds_cons.mpr ⟨b', htakes, builds_nil.mpr rfl⟩

theorem Builds.append {next : Builder} {first second : List Segment.Placed}
    (hfirst : Builds options b first next) (hsecond : Builds options next second b') :
    Builds options b (first ++ second) b' := by
  induction first generalizing b with
  | nil =>
    cases builds_nil.mp hfirst
    exact hsecond
  | cons p first ih =>
    obtain ⟨mid, htakes, hrest⟩ := builds_cons.mp hfirst
    exact builds_cons.mpr ⟨mid, htakes, ih hrest⟩

end

end Builder

end Stencil
