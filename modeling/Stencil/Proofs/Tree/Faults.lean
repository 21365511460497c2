import Stencil.Proofs.Expr.Failures
import Stencil.Proofs.Tree.Acceptance
import Stencil.Proofs.Tree.Failing
import Stencil.Proofs.Tree.Lines

/-!
# Where parsing fails

A source cannot be read because of a segment that the builder does not take, or because a section is never
closed. In both cases there is one segment that is to blame (`exists_fault_of_parseBody`), and the failure
has its line: the segment that is not taken, or the one that opened the innermost section.
-/

namespace Stencil

open Parsing

/-! ## Failures with a line -/

namespace Failure

/-- As far as the failure tells of the template, it is a complaint, which has no place yet. -/
def Unplaced (e : Failure) : Prop := ∀ t, e = .template t → ∃ c : Complaint, t = c.toError

/-- As far as the failure tells of the template, it has this line or none. -/
def AtLine (line : Option Nat) (e : Failure) : Prop :=
  ∀ t, e = .template t → t.line = none ∨ t.line = line.map Int.ofNat

theorem unplaced_complaint (c : Complaint) : c.toFailure.Unplaced := by
  rintro _ ⟨⟩
  exact ⟨c, rfl⟩

theorem IsHost.unplaced {e : Failure} (he : e.IsHost) : e.Unplaced := by
  obtain ⟨h, rfl⟩ := he
  intro t ht
  cases ht

theorem Unplaced.atLine {e : Failure} (he : e.Unplaced) (line : Option Nat) : e.AtLine line := by
  intro t ht
  obtain ⟨c, rfl⟩ := he t ht
  exact .inl rfl

end Failure

/-- Whatever the text, it is read with complaints and errors of the host only. -/
theorem safeTexts_unplaced : SafeTexts Failure.Unplaced fun _ => True where
  complaint := Failure.unplaced_complaint
  read {s} _ := fun e he => (Expr.failsOnly_read s e he).unplaced
  shown {_ e} _ _ := fun f hf => (Expr.failsOnly_shown e f hf).unplaced
  within _ _ := trivial
  expression _ _ := trivial
  argument _ _ := trivial

/-- Whatever a segment fails with has the line of the segment, or no line yet. -/
theorem safeSegment_atLine (options : ParseOptions) (p : Segment.Placed) :
    SafeSegment options p Failure.Unplaced (Failure.AtLine p.line) fun _ => True where
  texts := safeTexts_unplaced
  output _ := trivial
  tag _ := trivial
  failure he := he.atLine p.line
  placed {e} he markup := by
    rintro _ ⟨⟩
    obtain ⟨c, rfl⟩ := he e rfl
    exact .inr rfl
  nesting := by
    rintro _ ⟨⟩
    exact .inr rfl

namespace Builder

variable {options : ParseOptions} {b b' : Builder} {p : Segment.Placed}
  {segments : List Segment.Placed}

/-! ## The segment that is not taken -/

theorem builds_unique {b'' : Builder} (h : Builds options b segments b')
    (h' : Builds options b segments b'') : b'' = b' := Except.ok.inj (h'.symm.trans h)

theorem builds_append_iff {first second : List Segment.Placed} :
    Builds options b (first ++ second) b' ↔
      ∃ next, Builds options b first next ∧ Builds options next second b' := by
  constructor
  · intro h
    induction first generalizing b with
    | nil => exact ⟨b, builds_nil.mpr rfl, h⟩
    | cons p first ih =>
      obtain ⟨mid, htakes, hrest⟩ := builds_cons.mp h
      obtain ⟨next, hfirst, hsecond⟩ := ih hrest
      exact ⟨next, builds_cons.mpr ⟨mid, htakes, hfirst⟩, hsecond⟩
  · rintro ⟨next, hfirst, hsecond⟩
    exact hfirst.append hsecond

/-- Segments are refused because of the first one that is not taken. -/
theorem exists_of_takeAll_eq_error {e : Failure} (h : (takeAll options b segments).outcome = .error e) :
    ∃ before p later b' f, segments = before ++ p :: later ∧ Builds options b before b' ∧
      (b'.take options p).outcome = .error f ∧ e = placed p.line options.name f := by
  induction segments generalizing b with
  | nil => cases h
  | cons p rest ih =>
    rw [outcome_takeAll_cons] at h
    cases htake : (b.take options p).outcome with
    | error f =>
      rw [htake] at h
      cases h
      exact ⟨[], p, rest, b, f, rfl, builds_nil.mpr rfl, htake, rfl⟩
    | ok next =>
      rw [htake] at h
      obtain ⟨before, q, later, b', f, rfl, hbuilds, hfails, he⟩ := ih h
      exact ⟨p :: before, q, later, b', f, rfl,
        builds_cons.mpr ⟨next, takes_of_outcome htake, hbuilds⟩, hfails, he⟩

/-! ## Sections that are open -/

/-- The tags of the sections that are open, innermost first. -/
def openTags (b : Builder) : List Tag := b.verbatim.toList.map (·.tag) ++ b.frames.map (·.tag)

@[simp] theorem tags_setCurrent (b : Builder) (nodes : List Node) :
    (b.setCurrent nodes).frames.map (·.tag) = b.frames.map (·.tag) := by
  obtain ⟨outer, frames, verbatim, trimNext⟩ := b
  cases frames <;> rfl

@[simp] theorem openTags_setCurrent (b : Builder) (nodes : List Node) :
    (b.setCurrent nodes).openTags = b.openTags := by
  rw [openTags, verbatim_setCurrent, tags_setCurrent, openTags]

@[simp] theorem openTags_add (b : Builder) (node : Node) : (b.add node).openTags = b.openTags :=
  openTags_setCurrent ..

@[simp] theorem openTags_addText (b : Builder) (s : Segment) :
    (b.addText s).openTags = b.openTags := openTags_add ..

@[simp] theorem openTags_applyTrims (b : Builder) (s : Segment) :
    (b.applyTrims s).openTags = b.openTags := by
  unfold applyTrims
  dsimp only
  split
  · exact openTags_setCurrent ..
  · rfl

/-- The blocks that are open, when no verbatim section is. -/
theorem openTags_of_verbatim (hverbatim : b.verbatim = none) : b.openTags = b.frames.map (·.tag) := by
  rw [openTags, hverbatim]
  rfl

/-- A verbatim section is kept open, or it is the one that is closed. -/
theorem openTags_takeVerbatim {v : Verbatim} (hverbatim : b.verbatim = some v) (s : Segment) :
    (b.takeVerbatim v s).openTags = b.openTags ∨
      b.openTags = v.tag :: (b.takeVerbatim v s).openTags := by
  have hkept (pieces : List (List Char)) :
      openTags { b with verbatim := some { v with pieces } } = b.openTags := by
    rw [openTags, openTags, hverbatim]
    rfl
  unfold takeVerbatim
  split
  · split
    · refine .inr ?_
      rw [openTags, hverbatim, ← tags_setCurrent b]
      rfl
    · exact .inl (hkept _)
  · exact .inl (hkept _)

/-- **Step lemma.** A segment opens a section with its tag, or closes the innermost one, or leaves the
sections that are open as they are. -/
theorem Takes.openTags (htakes : Takes options b p b') :
    b'.openTags = b.openTags ∨ (∃ tag, tag.line = p.line ∧ b'.openTags = tag :: b.openTags) ∨
      ∃ tag, b.openTags = tag :: b'.openTags := by
  have hblocks (hverbatim : b.verbatim = none) :
      b.openTags = (b.applyTrims p.segment).frames.map (·.tag) := by
    rw [← openTags_applyTrims b p.segment, openTags_of_verbatim (by simpa using hverbatim)]
  cases htakes with
  | verbatim v hverbatim =>
    exact (openTags_takeVerbatim hverbatim p.segment).imp_right fun hclosed => .inr ⟨v.tag, hclosed⟩
  | text => exact .inl (openTags_addText b _)
  | output | node => exact .inl (by rw [openTags_add, openTags_applyTrims])
  | @opens tag opening guard hverbatim htag _ =>
    refine .inr (.inl ⟨tag, htag.line, ?_⟩)
    rw [hblocks hverbatim, openTags_of_verbatim (by simpa using hverbatim)]
    rfl
  | @raw tag hverbatim htag =>
    refine .inr (.inl ⟨tag, htag.line, ?_⟩)
    rw [hblocks hverbatim]
    rfl
  | @ends tag markup f rest hverbatim _ hframes _ =>
    refine .inr (.inr ⟨f.tag, ?_⟩)
    rw [openTags_add, hblocks hverbatim, hframes, openTags_of_verbatim (by simpa using hverbatim)]
    rfl
  | @starts tag markup f rest guard hverbatim _ hframes _ =>
    refine .inl ?_
    rw [hblocks hverbatim, hframes, openTags_of_verbatim (by simpa using hverbatim)]
    rfl
  | skipped => exact .inl (openTags_applyTrims b _)

/-- Of these segments, `p` opens a section with this tag. No segment behind it closes the section or one
around it, and in the end it is the innermost one. -/
structure LeavesOpen (options : ParseOptions) (before : List Segment.Placed) (p : Segment.Placed)
    (later : List Segment.Placed) (tag : Tag) (b b' last : Builder) : Prop where
  before : Builds options {} before b
  opens : Takes options b p b'
  opened : b'.openTags = tag :: b.openTags
  inside : Builds options b' later last
  unclosed {front back : List Segment.Placed} {mid : Builder} (hsplit : later = front ++ back)
    (hfront : Builds options b' front mid) : b'.openTags <:+ mid.openTags

/-- A section that the next segment does not close is left open by it. -/
theorem LeavesOpen.snoc {before inside : List Segment.Placed} {q : Segment.Placed} {tag : Tag}
    {b₀ b₁ last : Builder} (h : LeavesOpen options before p inside tag b₀ b₁ last)
    (htakes : Takes options last q b) (hopen : b₁.openTags <:+ b.openTags) :
    LeavesOpen options before p (inside ++ [q]) tag b₀ b₁ b := by
  have hinside : Builds options b₁ (inside ++ [q]) b :=
    h.inside.append (builds_cons.mpr ⟨b, htakes, builds_nil.mpr rfl⟩)
  refine { h with inside := hinside, unclosed := fun {front back mid} hsplit hmid => ?_ }
  rcases List.eq_nil_or_concat' back with rfl | ⟨back, last, rfl⟩
  · rw [List.append_nil] at hsplit
    rw [← hsplit] at hmid
    rw [builds_unique hinside hmid]
    exact hopen
  · rw [← List.append_assoc] at hsplit
    exact h.unclosed (List.append_inj_left' hsplit rfl) hmid

/-- A section that is open has been opened by a segment, and has not been closed since. Induction on the
segments, the last one first. -/
theorem exists_leavesOpen {tag : Tag} {around : List Tag} (hbuilds : Builds options {} segments b)
    (hopen : tag :: around <:+ b.openTags) :
    ∃ before p inside b₀ b₁, segments = before ++ p :: inside ∧ tag.line = p.line ∧
      b₁.openTags = tag :: around ∧ LeavesOpen options before p inside tag b₀ b₁ b := by
  induction segments using List.reverseRecOn generalizing b with
  | nil =>
    cases builds_nil.mp hbuilds
    exact absurd hopen.length_le (by simp [openTags])
  | append_singleton segments q ih =>
    obtain ⟨mid, hfront, hlast⟩ := builds_append_iff.mp hbuilds
    obtain ⟨_, htakes, hnil⟩ := builds_cons.mp hlast
    cases builds_nil.mp hnil
    -- a section that was open in front of the last segment
    have hearlier (hmid : tag :: around <:+ mid.openTags) :
        ∃ before p inside b₀ b₁, segments ++ [q] = before ++ p :: inside ∧ tag.line = p.line ∧
          b₁.openTags = tag :: around ∧ LeavesOpen options before p inside tag b₀ b₁ b := by
      obtain ⟨before, p, inside, b₀, b₁, rfl, hline, htags, hleaves⟩ := ih hfront hmid
      rw [← htags] at hopen
      exact ⟨before, p, inside ++ [q], b₀, b₁, by simp, hline, htags, hleaves.snoc htakes hopen⟩
    rcases htakes.openTags with hsame | ⟨tag', hline, hpush⟩ | ⟨tag', hpop⟩
    · rw [hsame] at hopen
      exact hearlier hopen
    · rw [hpush] at hopen
      rcases List.suffix_cons_iff.mp hopen with heq | hmid
      · -- the section has just been opened
        obtain ⟨rfl, rfl⟩ := List.cons.inj heq
        refine ⟨segments, q, [], mid, b, rfl, hline, hpush, hfront, htakes, hpush,
          builds_nil.mpr rfl, fun {front back mid'} hsplit hmid' => ?_⟩
        obtain ⟨rfl, rfl⟩ := List.append_eq_nil_iff.mp hsplit.symm
        cases builds_nil.mp hmid'
        exact List.suffix_rfl
      · exact hearlier hmid
    · refine hearlier (hopen.trans ?_)
      rw [hpop]
      exact List.suffix_cons tag' b.openTags

/-! ## The end of a source -/

/-- A tree cannot be finished because of the innermost open section. -/
theorem finish_eq_error {e : Failure} (h : b.finish = .error e) :
    ∃ tag around, b.openTags = tag :: around ∧
      e = .template { (Complaint.neverClosed tag.name).toError with line := tag.line.map Int.ofNat } := by
  obtain ⟨outer, frames, verbatim, trimNext⟩ := b
  cases verbatim with
  | some v =>
    cases h
    exact ⟨v.tag, _, rfl, rfl⟩
  | none =>
    cases frames with
    | nil => cases h
    | cons f rest =>
      cases h
      exact ⟨f.tag, _, rfl, rfl⟩

end Builder

/-! ## Whole templates -/

/-- The segment `p` is to blame: the ones before it are taken, and it is not; or all are taken, and the
section that it opens is never closed. -/
inductive Segment.Placed.IsBlamed (options : ParseOptions) (before : List Segment.Placed)
    (p : Segment.Placed) (later : List Segment.Placed) (e : TemplateError) : Prop
  | refused (b : Builder) (f : TemplateError) (hbefore : Builder.Builds options {} before b)
    (hfails : (b.take options p).outcome = .error (.template f)) (hmessage : e.message = f.message)
    (hcode : e.code = f.code)
  | unclosed (tag : Tag) (b b' last : Builder)
    (hopen : Builder.LeavesOpen options before p later tag b b' last)
    (hlast : last.openTags = b'.openTags)
    (hmessage : e.message = (Complaint.neverClosed tag.name).message)

section

variable {options : ParseOptions} {segments : List Segment.Placed} {e : TemplateError}

/-- The segment that is not taken is to blame. -/
theorem exists_fault_of_takeAll
    (htake : (Builder.takeAll options {} segments).outcome = .error (.template e)) :
    ∃ before p later, segments = before ++ p :: later ∧ e.line = p.line.map Int.ofNat ∧
      p.IsBlamed options before later e := by
  obtain ⟨before, p, later, b, f, hsplit, hbefore, hfails, heq⟩ :=
    Builder.exists_of_takeAll_eq_error htake
  cases f with
  | host f => cases heq
  | template f =>
    cases heq
    refine ⟨before, p, later, hsplit, ?_, .refused b f hbefore hfails rfl rfl⟩
    change f.line.or (p.line.map Int.ofNat) = p.line.map Int.ofNat
    rcases (safeSegment_atLine options p).take b _ hfails f rfl with hline | hline <;> rw [hline]
    · exact Option.none_or
    · exact Option.or_self

/-- The segment that opens the innermost section of those that are never closed is to blame. -/
theorem exists_fault_of_finish {b : Builder} {last : Option Nat} {name : Option String}
    (hlines : ∀ p ∈ segments, p.line.isSome) (hbuilds : Builder.Builds options {} segments b)
    (hfinish : b.finish.mapError (placed last name) = .error (.template e)) :
    ∃ before p later, segments = before ++ p :: later ∧ e.line = p.line.map Int.ofNat ∧
      p.IsBlamed options before later e := by
  cases hopen : b.finish with
  | ok body =>
    rw [hopen] at hfinish
    cases hfinish
  | error f =>
    obtain ⟨tag, around, htags, rfl⟩ := Builder.finish_eq_error hopen
    rw [hopen] at hfinish
    cases hfinish
    obtain ⟨before, p, later, b₀, b₁, rfl, hline, htags', hleaves⟩ :=
      Builder.exists_leavesOpen hbuilds ⟨[], htags.symm⟩
    refine ⟨before, p, later, rfl, ?_, .unclosed tag b₀ b₁ b hleaves (htags.trans htags'.symm) rfl⟩
    obtain ⟨n, hn⟩ := Option.isSome_iff_exists.mp
      (hlines p (List.mem_append_right _ List.mem_cons_self))
    dsimp only
    rw [hline, hn]
    rfl

/-- **There is one segment to blame for a source that cannot be read**, and the failure has its line. -/
theorem exists_fault_of_parseBody {source : List Char} (hnumbered : options.numbered = true)
    (hdepth : 1 ≤ options.maxDepth)
    (herror : (parseBody options source).outcome = .error (.template e)) :
    ∃ before p later, Segment.scanPlaced options.numbered source = before ++ p :: later ∧
      e.line = p.line.map Int.ofNat ∧ p.IsBlamed options before later e := by
  rw [outcome_parseBody, if_neg (by omega)] at herror
  dsimp only at herror
  cases htake : (Builder.takeAll options {} (Segment.scanPlaced options.numbered source)).outcome with
  | error f =>
    rw [htake] at herror
    cases herror
    exact exists_fault_of_takeAll htake
  | ok b =>
    rw [htake] at herror
    exact exists_fault_of_finish (fun p hp => (Segment.line_of_mem_scanPlaced p hp).trans hnumbered)
      htake herror

end

end Stencil
