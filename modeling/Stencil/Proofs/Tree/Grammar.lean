import Stencil.Proofs.Tree.Steps

/-!
# The grammar of blocks

What segments a template may consist of, as a grammar that knows nothing of the builder.

* `Continues options block p k guard k'`: inside the block, the tag `p` starts a part.
* `Derives options phrase n segments kept`: the segments are a body, or what stands behind a body of a
  block up to its end, whose blocks are at the nesting level `n`. Of the segments, `kept` are the ones
  that stand in the tree: those in front of the first part of a case are left out, and so are the tags
  that a comment skips.
* `derives_of_builds`: whatever the builder takes up to a finished tree is a body of the grammar.
-/

namespace Stencil

open Parsing

/-- Which tags continue a block, besides its end. -/
inductive Continuation where
  /-- Any number of conditions and elses. -/
  | branches
  /-- Any number of alternatives and elses. -/
  | clauses
  /-- One else. -/
  | fallback
  /-- All tags that are not registered, which are skipped. -/
  | anything
  | nothing

/-- Which tags continue a block with this head. -/
def Opening.continuation : Opening → Continuation
  | .choose _ => .branches
  | .case _ => .clauses
  | .loop _ => .fallback
  | .block .comment => .anything
  | .table _ | .block _ => .nothing

/-- Whether what stands in front of the first part of a block is left out of the tree. -/
def Opening.dropsPreamble : Opening → Bool
  | .case _ => true
  | _ => false

/-- The tag continues a block of this name, after which other tags may continue it: it starts a part
behind `guard`, or it is skipped. -/
inductive Continues (options : ParseOptions) (block : String) (p : Segment.Placed) :
    Continuation → Option Guard → Continuation → Prop
  | elsif {tag : Tag} {markup : List Char} {c : Condition} (htag : p.IsBare options tag markup)
    (hname : tag.name = "elsif")
    (hread : (Builder.readCondition options p.line block markup).outcome = .ok c) :
    Continues options block p .branches (some (.condition c)) .branches
  | branchElse {tag : Tag} {markup : List Char} (htag : p.IsBare options tag markup)
    (hname : tag.name = "else") : Continues options block p .branches (some .otherwise) .branches
  | when {tag : Tag} {markup : List Char} {values : List Expr} (htag : p.IsBare options tag markup)
    (hname : tag.name = "when") (hsome : Fragment.alternatives markup ≠ [])
    (hread : (Fragment.alternatives markup).mapM Expr.read = .ok values) :
    Continues options block p .clauses (some (.alternatives values)) .clauses
  | clauseElse {tag : Tag} {markup : List Char} (htag : p.IsBare options tag markup)
    (hname : tag.name = "else") (hblank : Text.isAllBlank markup = true) :
    Continues options block p .clauses (some .otherwise) .clauses
  | loopElse {tag : Tag} {markup : List Char} (htag : p.IsBare options tag markup)
    (hname : tag.name = "else") : Continues options block p .fallback (some .otherwise) .nothing
  | skipped {tag : Tag} {markup : List Char} (htag : p.IsBare options tag markup)
    (hname : tag.name ≠ Complaint.delimiter block) :
    Continues options block p .anything none .anything

/-- The tag ends a block of this name. -/
def Segment.Placed.Ends (options : ParseOptions) (p : Segment.Placed) (block : String) : Prop :=
  ∃ tag markup, p.IsBare options tag markup ∧ tag.name = Complaint.delimiter block

/-- What segments may form. -/
inductive Phrase where
  /-- A body. -/
  | body
  /-- What stands behind a body of a block of this name, up to the end of the block. -/
  | tail (block : String) (continuation : Continuation)

/-- The segments form a phrase whose blocks are at the nesting level `n`, the outermost ones being at
level 1. The last argument is what stands in the tree. -/
inductive Derives (options : ParseOptions) :
    Phrase → Nat → List Segment.Placed → List Segment.Placed → Prop
  | nothing (n : Nat) : Derives options .body n [] []
  | text {n : Nat} {p : Segment.Placed} {rest kept : List Segment.Placed}
    (hkind : p.segment.kind = .text) (hrest : Derives options .body n rest kept) :
    Derives options .body n (p :: rest) (p :: kept)
  | output {n : Nat} {p : Segment.Placed} {markup : List Char} {o : Output}
    {rest kept : List Segment.Placed} (houtput : p.IsOutput markup)
    (hread : (Builder.readOutput options p.line markup).outcome = .ok o)
    (hrest : Derives options .body n rest kept) :
    Derives options .body n (p :: rest) (p :: kept)
  /-- A tag without a body: an assignment, a signal, a cycle, or one of an extension. -/
  | node {n : Nat} {p : Segment.Placed} {tag : Tag} {node : Node} {rest kept : List Segment.Placed}
    (htag : p.IsRegistered options tag (.node node)) (hrest : Derives options .body n rest kept) :
    Derives options .body n (p :: rest) (p :: kept)
  /-- A block: its head, its first body, its other parts up to its end, and what follows it. -/
  | block {n : Nat} {p : Segment.Placed} {tag : Tag} {opening : Opening} {guard : Guard}
    {first tail rest kept keptTail keptRest : List Segment.Placed}
    (htag : p.IsRegistered options tag (.opens opening guard))
    (hdepth : (n : Int) < options.maxDepth) (hfirst : Derives options .body (n + 1) first kept)
    (htail : Derives options (.tail tag.name opening.continuation) (n + 1) tail keptTail)
    (hrest : Derives options .body n rest keptRest) :
    Derives options .body n (p :: first ++ tail ++ rest)
      (p :: (if opening.dropsPreamble then [] else kept) ++ keptTail ++ keptRest)
  | ends {n : Nat} {p : Segment.Placed} {block : String} {k : Continuation}
    (hends : p.Ends options block) : Derives options (.tail block k) n [p] [p]
  /-- A tag that continues the block, the body behind it, and what follows up to the end. -/
  | part {n : Nat} {p : Segment.Placed} {block : String} {k k' : Continuation}
    {guard : Option Guard} {body tail kept keptTail : List Segment.Placed}
    (hcontinues : Continues options block p k guard k')
    (hbody : Derives options .body n body kept)
    (htail : Derives options (.tail block k') n tail keptTail) :
    Derives options (.tail block k) n (p :: body ++ tail)
      ((if guard.isSome then [p] else []) ++ kept ++ keptTail)

/-- What stands in the tree are segments of the source, in their order. -/
theorem Derives.sublist {options : ParseOptions} {phrase : Phrase} {n : Nat}
    {segments kept : List Segment.Placed} (h : Derives options phrase n segments kept) :
    kept.Sublist segments := by
  induction h with
  | nothing n => exact List.Sublist.refl []
  | text _ _ ih => exact ih.cons_cons _
  | output _ _ _ ih => exact ih.cons_cons _
  | node _ _ ih => exact ih.cons_cons _
  | ends _ => exact List.Sublist.refl _
  | @block n p tag opening guard first tail rest kept keptTail keptRest _ _ _ _ _ hfirst htail hrest =>
    have hkept : (if opening.dropsPreamble then [] else kept).Sublist first := by
      split
      · exact List.nil_sublist _
      · exact hfirst
    exact ((hkept.cons_cons p).append htail).append hrest
  | @part n p block k k' guard body tail kept keptTail _ _ _ hbody htail =>
    have hkept : (if guard.isSome then [p] else []).Sublist [p] := by
      split
      · exact List.Sublist.refl _
      · exact List.nil_sublist _
    exact (hkept.append hbody).append htail

/-! ## The built-in tags -/

/-- Which of the tags that every template has are nodes by themselves, and which open a block. -/
theorem Segment.Placed.IsRegistered.builtin {options : ParseOptions} {p : Segment.Placed} {tag : Tag}
    {reading : TagReading} (htag : p.IsRegistered options tag reading)
    (hbuiltin : options.tags = builtinTags) :
    match reading with
    | .node _ => tag.name ∈ ["assign", "break", "continue", "cycle"]
    | .opens (.choose negated) _ => tag.name = if negated then "unless" else "if"
    | .opens (.case _) _ => tag.name = "case"
    | .opens (.loop _) _ => tag.name = "for"
    | .opens (.table _) _ => tag.name = "tablerow"
    | .opens (.block (.capture _)) _ => tag.name = "capture"
    | .opens (.block .changed) _ => tag.name = "ifchanged"
    | .opens (.block .comment) _ => tag.name = "comment"
    | .opens (.block _) _ => False
    | .verbatim => tag.name = "raw" := by
  obtain ⟨kind, hkind, hreads⟩ := Builder.readsAs_of_isRegistered htag
  rw [hbuiltin] at hkind
  have hmem : (tag.name, kind) ∈ builtinTags := by
    obtain ⟨entry, hfind, rfl⟩ := Option.map_eq_some_iff.mp hkind
    have hname : entry.1 = tag.name := by simpa using List.find?_some hfind
    rw [← hname]
    exact List.mem_of_find?_eq_some hfind
  simp only [builtinTags, List.mem_cons, Prod.mk.injEq, List.not_mem_nil, or_false] at hmem
  cases hreads <;> simp_all

/-! ## Reading the tags of an open block -/

namespace Frame

/-- Which tags may continue an open block: a loop takes one else. -/
def continuation (f : Frame) : Continuation :=
  match f.opening with
  | .loop _ => if f.inOtherwise then .nothing else .fallback
  | opening => opening.continuation

/-- What an open block waits for. -/
def expects (f : Frame) : String × Continuation := (f.tag.name, f.continuation)

/-- Which blocks may be continued in which way. -/
theorem continuation_cases (f : Frame) :
    (∃ negated, f.opening = .choose negated) ∧ f.continuation = .branches ∨
    (∃ subject, f.opening = .case subject) ∧ f.continuation = .clauses ∨
    (∃ header, f.opening = .loop header ∧ f.inOtherwise = false) ∧ f.continuation = .fallback ∨
    f.opening = .block .comment ∧ f.continuation = .anything ∨
    f.continuation = .nothing := by
  obtain ⟨block, opening, parts, current, nodes⟩ := f
  cases opening with
  | choose negated => exact .inl ⟨⟨negated, rfl⟩, rfl⟩
  | case subject => exact .inr (.inl ⟨⟨subject, rfl⟩, rfl⟩)
  | loop header =>
    cases hin : inOtherwise ⟨block, .loop header, parts, current, nodes⟩ with
    | true => exact .inr (.inr (.inr (.inr (if_pos hin))))
    | false =>
      have hnot : ¬ inOtherwise ⟨block, .loop header, parts, current, nodes⟩ = true := by
        rw [hin]
        exact Bool.false_ne_true
      exact .inr (.inr (.inl ⟨⟨header, rfl, rfl⟩, if_neg hnot⟩))
  | table header => exact .inr (.inr (.inr (.inr rfl)))
  | block kind =>
    cases kind with
    | comment => exact .inr (.inr (.inr (.inl ⟨rfl, rfl⟩)))
    | _ => exact .inr (.inr (.inr (.inr rfl)))

variable {f : Frame}

theorem opening_of_branches (hk : f.continuation = .branches) :
    ∃ negated, f.opening = .choose negated := by
  simpa [hk] using f.continuation_cases

theorem opening_of_clauses (hk : f.continuation = .clauses) :
    ∃ subject, f.opening = .case subject := by
  simpa [hk] using f.continuation_cases

theorem opening_of_fallback (hk : f.continuation = .fallback) :
    ∃ header, f.opening = .loop header ∧ f.inOtherwise = false := by
  simpa [hk] using f.continuation_cases

theorem opening_of_anything (hk : f.continuation = .anything) : f.opening = .block .comment := by
  simpa [hk] using f.continuation_cases

end Frame

theorem Complaint.delimiter_ne (block : String) {name : String}
    (hname : name.toList[1]? ≠ some 'n') : name ≠ Complaint.delimiter block := by
  rintro rfl
  refine hname ?_
  rw [Complaint.delimiter, String.toList_append]
  rfl

namespace Builder

section

variable {options : ParseOptions} {f : Frame} {p : Segment.Placed} {tag : Tag} {markup : List Char}

/-- What the reading of a tag inside an open block says in terms of the grammar. -/
def ReadsPart (options : ParseOptions) (f : Frame) (p : Segment.Placed) : PartReading → Prop
  | .ends => p.Ends options f.tag.name
  | .starts guard => Continues options f.tag.name p f.continuation (some guard)
      (f.startPart guard).continuation
  | .skipped => Continues options f.tag.name p f.continuation none f.continuation

theorem not_refuse_eq_ok {α : Type} {name : String} {a : α} :
    (refuse f name : Parsing α).outcome ≠ .ok a := by
  rw [refuse, outcome_ofOutcome]
  exact fun hok => nomatch hok

/-- A tag that ends a block is taken as its end. -/
theorem readPart_of_ends (options : ParseOptions) (line : Option Nat) (markup : List Char)
    {name : String} (hname : name = Complaint.delimiter f.tag.name) :
    (readPart options f name line markup).outcome = .ok .ends := by
  unfold readPart
  rw [if_pos (beq_iff_eq.mpr hname)]
  rfl

section

/-! What a block takes besides its end, for the kinds of blocks that take something. -/

variable {reading : PartReading} (htag : p.IsBare options tag markup)
  (hgoes : tag.name ≠ Complaint.delimiter f.tag.name)
  (hread : (readPart options f tag.name p.line markup).outcome = .ok reading)
include htag hgoes hread

/-- A choice takes the heads of its branches, and an else. -/
theorem readsPart_of_choose {negated : Bool} (hopening : f.opening = .choose negated) :
    ReadsPart options f p reading := by
  obtain ⟨block, opening, parts, current, nodes⟩ := f
  subst hopening
  unfold readPart at hread
  rw [if_neg (mt beq_iff_eq.mp hgoes)] at hread
  dsimp only at hread
  split at hread
  · next hname =>
    obtain ⟨c, hc, hreading⟩ := (outcome_bind_eq_ok fun _ => steady_pure _).mp hread
    cases hreading
    exact .elsif htag (beq_iff_eq.mp hname) hc
  · split at hread
    · next hname =>
      cases hread
      exact .branchElse htag (beq_iff_eq.mp hname)
    · exact absurd hread not_refuse_eq_ok

/-- A case takes the heads of its clauses, and an else without markup. -/
theorem readsPart_of_case {subject : Expr} (hopening : f.opening = .case subject) :
    ReadsPart options f p reading := by
  obtain ⟨block, opening, parts, current, nodes⟩ := f
  subst hopening
  unfold readPart at hread
  rw [if_neg (mt beq_iff_eq.mp hgoes)] at hread
  dsimp only at hread
  split at hread
  · next hname =>
    split at hread
    · cases hread
    · next values hvalues =>
      obtain ⟨es, hes, hreading⟩ := (outcome_bind_eq_ok fun _ => steady_pure _).mp hread
      cases hreading
      rw [outcome_ofOutcome] at hes
      exact .when htag (beq_iff_eq.mp hname) hvalues hes
  · split at hread
    · next hname =>
      split at hread
      · next hblank =>
        cases hread
        exact .clauseElse htag (beq_iff_eq.mp hname) hblank
      · cases hread
    · exact absurd hread not_refuse_eq_ok

/-- A loop takes one else. -/
theorem readsPart_of_loop {header : LoopHeader} (hopening : f.opening = .loop header) :
    ReadsPart options f p reading := by
  obtain ⟨block, opening, parts, current, nodes⟩ := f
  subst hopening
  unfold readPart at hread
  rw [if_neg (mt beq_iff_eq.mp hgoes)] at hread
  dsimp only at hread
  split at hread
  · next hname =>
    cases hread
    rw [Bool.and_eq_true, Bool.not_eq_true', beq_iff_eq] at hname
    obtain ⟨helse, hnone⟩ := hname
    simp only [ReadsPart, Frame.continuation, hnone, Bool.false_eq_true, if_false]
    exact .loopElse htag helse
  · exact absurd hread not_refuse_eq_ok

end

/-- **A tag that a block takes ends it, continues it, or is skipped.** -/
theorem readsPart_of_readPart (htag : p.IsBare options tag markup) {reading : PartReading}
    (hread : (readPart options f tag.name p.line markup).outcome = .ok reading) :
    ReadsPart options f p reading := by
  by_cases hends : tag.name = Complaint.delimiter f.tag.name
  · rw [readPart_of_ends options p.line markup hends] at hread
    cases hread
    exact ⟨tag, markup, htag, hends⟩
  · cases hopening : f.opening with
    | choose negated => exact readsPart_of_choose htag hends hread hopening
    | case subject => exact readsPart_of_case htag hends hread hopening
    | loop header => exact readsPart_of_loop htag hends hread hopening
    | table header =>
      unfold readPart at hread
      rw [if_neg (mt beq_iff_eq.mp hends), hopening] at hread
      exact absurd hread not_refuse_eq_ok
    | block kind =>
      unfold readPart at hread
      rw [if_neg (mt beq_iff_eq.mp hends), hopening] at hread
      cases kind with
      | comment =>
        cases hread
        obtain ⟨block, opening, parts, current, nodes⟩ := f
        cases hopening
        exact .skipped htag hends
      | _ => exact absurd hread not_refuse_eq_ok

/-- A tag that continues a block is taken so. -/
theorem readPart_of_continues {guard : Option Guard} {k : Continuation}
    (hcontinues : Continues options f.tag.name p f.continuation guard k) :
    ∃ tag markup reading, p.IsBare options tag markup ∧
      (readPart options f tag.name p.line markup).outcome = .ok reading ∧
      ((∃ g, guard = some g ∧ reading = .starts g ∧ (f.startPart g).continuation = k) ∨
        guard = none ∧ reading = .skipped ∧ f.continuation = k) := by
  generalize hk : f.continuation = k₀ at hcontinues
  -- none of the tags that continue a block ends it
  have hgoes {tag : Tag} {name : String} (hname : tag.name = name)
      (hsecond : name.toList[1]? ≠ some 'n') :
      ¬ (tag.name == Complaint.delimiter f.tag.name) = true := by
    rw [beq_iff_eq, hname]
    exact Complaint.delimiter_ne f.tag.name hsecond
  obtain ⟨block, opening, parts, current, nodes⟩ := f
  cases hcontinues with
  | @elsif tag markup c htag hname hread =>
    obtain ⟨negated, rfl⟩ := Frame.opening_of_branches hk
    refine ⟨tag, markup, .starts (.condition c), htag, ?_, .inl ⟨_, rfl, rfl, rfl⟩⟩
    unfold readPart
    rw [if_neg (hgoes hname (by decide))]
    dsimp only
    rw [if_pos (beq_iff_eq.mpr hname), outcome_bind _ fun _ => steady_pure _, hread]
    rfl
  | @branchElse tag markup htag hname =>
    obtain ⟨negated, rfl⟩ := Frame.opening_of_branches hk
    refine ⟨tag, markup, .starts .otherwise, htag, ?_, .inl ⟨_, rfl, rfl, rfl⟩⟩
    unfold readPart
    rw [if_neg (hgoes hname (by decide)), hname]
    rfl
  | @«when» tag markup values htag hname hsome hread =>
    obtain ⟨subject, rfl⟩ := Frame.opening_of_clauses hk
    refine ⟨tag, markup, .starts (.alternatives values), htag, ?_, .inl ⟨_, rfl, rfl, rfl⟩⟩
    unfold readPart
    rw [if_neg (hgoes hname (by decide))]
    dsimp only
    rw [if_pos (beq_iff_eq.mpr hname)]
    split
    · next hnone => exact absurd hnone hsome
    · rw [outcome_bind _ fun _ => steady_pure _, outcome_ofOutcome, hread]
      rfl
  | @clauseElse tag markup htag hname hblank =>
    obtain ⟨subject, rfl⟩ := Frame.opening_of_clauses hk
    refine ⟨tag, markup, .starts .otherwise, htag, ?_, .inl ⟨_, rfl, rfl, rfl⟩⟩
    unfold readPart
    rw [if_neg (hgoes hname (by decide)), hname, if_pos hblank]
    rfl
  | @loopElse tag markup htag hname =>
    obtain ⟨header, rfl, hin⟩ := Frame.opening_of_fallback hk
    refine ⟨tag, markup, .starts .otherwise, htag, ?_, .inl ⟨_, rfl, rfl, rfl⟩⟩
    unfold readPart
    rw [if_neg (hgoes hname (by decide)), hname, hin]
    rfl
  | @skipped tag markup htag hname =>
    obtain rfl := Frame.opening_of_anything hk
    refine ⟨tag, markup, .skipped, htag, ?_, .inr ⟨rfl, rfl, rfl⟩⟩
    unfold readPart
    rw [if_neg fun hends => hname (beq_iff_eq.mp hends)]
    rfl

end

/-! ## What is built is a body of the grammar -/

/-- What the open blocks wait for, innermost first. -/
def expected (b : Builder) : List (String × Continuation) := b.frames.map Frame.expects

@[simp] theorem expected_setCurrent (b : Builder) (nodes : List Node) :
    (b.setCurrent nodes).expected = b.expected := by
  obtain ⟨outer, frames, verbatim, trimNext⟩ := b
  cases frames <;> rfl

@[simp] theorem expected_add (b : Builder) (node : Node) : (b.add node).expected = b.expected :=
  expected_setCurrent ..

@[simp] theorem expected_applyTrims (b : Builder) (s : Segment) :
    (b.applyTrims s).expected = b.expected := by
  unfold applyTrims
  dsimp only
  split
  · exact expected_setCurrent ..
  · rfl

@[simp] theorem expected_addText (b : Builder) (s : Segment) :
    (b.addText s).expected = b.expected := expected_add ..

end Builder

/-- The segments finish the open blocks, innermost first: the rest of the innermost body, then what is
left of its block, then what finishes the other blocks. -/
inductive Completes (options : ParseOptions) :
    List (String × Continuation) → List Segment.Placed → Prop
  | outer {segments kept : List Segment.Placed} (hbody : Derives options .body 1 segments kept) :
    Completes options [] segments
  | inner {block : String} {k : Continuation} {others : List (String × Continuation)}
    {body tail rest kept keptTail : List Segment.Placed}
    (hbody : Derives options .body (others.length + 2) body kept)
    (htail : Derives options (.tail block k) (others.length + 2) tail keptTail)
    (hrest : Completes options others rest) :
    Completes options ((block, k) :: others) (body ++ tail ++ rest)

section

variable {options : ParseOptions} {blocks : List (String × Continuation)}
  {p : Segment.Placed} {rest : List Segment.Placed}

/-- What may stand in front of every body may stand in front of what finishes the open blocks. -/
theorem Completes.prepend (h : Completes options blocks rest) (first : List Segment.Placed)
    (hfirst : ∀ {body kept}, Derives options .body (blocks.length + 1) body kept →
      ∃ kept', Derives options .body (blocks.length + 1) (first ++ body) kept') :
    Completes options blocks (first ++ rest) := by
  cases h with
  | outer hbody =>
    obtain ⟨kept', hbody'⟩ := hfirst hbody
    exact .outer hbody'
  | inner hbody htail hrest =>
    obtain ⟨kept', hbody'⟩ := hfirst hbody
    rw [← List.append_assoc, ← List.append_assoc]
    exact .inner hbody' htail hrest

/-- A block that is opened is finished first. -/
theorem Completes.of_opens {tag : Tag} {opening : Opening} {guard : Guard}
    (htag : p.IsRegistered options tag (.opens opening guard))
    (hdepth : (blocks.length : Int) + 1 < options.maxDepth)
    (h : Completes options ((tag.name, opening.continuation) :: blocks) rest) :
    Completes options blocks (p :: rest) := by
  cases h with
  | @inner _ _ _ body tail rest kept keptTail hbody htail hrest =>
    have hblock := hrest.prepend (p :: body ++ tail) fun hafter =>
      ⟨_, .block htag (by exact_mod_cast hdepth) hbody htail hafter⟩
    simpa only [List.cons_append, List.append_assoc] using hblock

/-- The end of a block is all that is left of it. -/
theorem Completes.of_ends {block : String} {k : Continuation} (hends : p.Ends options block)
    (h : Completes options blocks rest) : Completes options ((block, k) :: blocks) (p :: rest) :=
  .inner (.nothing _) (.ends hends) h

/-- A part that is started is finished first. -/
theorem Completes.of_continues {block : String} {k k' : Continuation} {guard : Option Guard}
    (hcontinues : Continues options block p k guard k')
    (h : Completes options ((block, k') :: blocks) rest) :
    Completes options ((block, k) :: blocks) (p :: rest) := by
  cases h with
  | @inner _ _ _ body tail rest kept keptTail hbody htail hrest =>
    have hpart := Completes.inner (.nothing _) (.part hcontinues hbody htail) hrest
    simpa only [List.nil_append, List.cons_append, List.append_assoc] using hpart

end

namespace Builder

section

variable {options : ParseOptions} {b b' : Builder} {p : Segment.Placed}
  {rest segments : List Segment.Placed}

/-- Only the head of a verbatim section opens one. -/
theorem Takes.verbatim_eq_none (htakes : Takes options b p b') (hverbatim : b.verbatim = none)
    (hraw : ∀ tag, ¬ p.IsRegistered options tag .verbatim) : b'.verbatim = none := by
  cases htakes with
  | verbatim v hsome =>
    rw [hverbatim] at hsome
    cases hsome
  | raw _ htag => exact absurd htag (hraw _)
  | text => exact (verbatim_addText b p.segment).trans hverbatim
  | output | node => rw [verbatim_add, verbatim_applyTrims, hverbatim]
  | ends => rw [verbatim_add]; exact (verbatim_applyTrims b p.segment).trans hverbatim
  | opens | starts | skipped => exact (verbatim_applyTrims b p.segment).trans hverbatim

/-- A block that has just been opened stands in its first part, where a loop may still be continued. -/
theorem continuation_opened {tag : Tag} {opening : Opening} {guard : Guard}
    (htag : p.IsRegistered options tag (.opens opening guard)) :
    Frame.continuation { tag, opening, guard } = opening.continuation := by
  obtain ⟨kind, -, hreads⟩ := readsAs_of_isRegistered htag
  cases hreads <;> rfl

/-- **Step lemma.** If what is open after a segment is finished by the rest, then what is open in front
of it is finished by the segment and the rest. -/
theorem Takes.completes (htakes : Takes options b p b') (hverbatim : b.verbatim = none)
    (hraw : ∀ tag, ¬ p.IsRegistered options tag .verbatim)
    (hafter : Completes options b'.expected rest) : Completes options b.expected (p :: rest) := by
  -- what is open in front of a tag that its block takes
  have hopen {f : Frame} {others : List Frame}
      (hframes : (b.applyTrims p.segment).frames = f :: others) :
      b.expected = f.expects :: others.map Frame.expects := by
    rw [← expected_applyTrims b p.segment, expected, hframes, List.map_cons]
  cases htakes with
  | verbatim v hsome =>
    rw [hverbatim] at hsome
    cases hsome
  | text _ hkind =>
    rw [expected_addText] at hafter
    exact hafter.prepend [p] fun hbody => ⟨_, .text hkind hbody⟩
  | output _ houtput hread =>
    rw [expected_add, expected_applyTrims] at hafter
    exact hafter.prepend [p] fun hbody => ⟨_, .output houtput hread hbody⟩
  | node _ htag =>
    rw [expected_add, expected_applyTrims] at hafter
    exact hafter.prepend [p] fun hbody => ⟨_, .node htag hbody⟩
  | @opens tag opening guard _ htag hdepth =>
    have hopens := continuation_opened htag
    have hexpected : Builder.expected { b.applyTrims p.segment with
        frames := { tag, opening, guard } :: (b.applyTrims p.segment).frames } =
        (tag.name, opening.continuation) :: b.expected := by
      rw [← expected_applyTrims b p.segment, ← hopens]
      rfl
    rw [hexpected] at hafter
    exact .of_opens htag (by rw [expected, List.length_map]; exact hdepth) hafter
  | raw _ htag => exact absurd htag (hraw _)
  | ends _ htag hframes hread =>
    rw [expected_add] at hafter
    rw [hopen hframes]
    exact hafter.of_ends (readsPart_of_readPart htag hread)
  | starts _ htag hframes hread =>
    rw [hopen hframes]
    exact hafter.of_continues (readsPart_of_readPart htag hread)
  | skipped _ htag hframes hread =>
    rw [expected_applyTrims, hopen hframes] at hafter
    rw [hopen hframes]
    exact hafter.of_continues (readsPart_of_readPart htag hread)

/-- **Run lemma.** The open blocks are finished by the segments that lead to a finished tree. -/
theorem completes_of_builds
    (hraw : ∀ p ∈ segments, ∀ tag, ¬ p.IsRegistered options tag .verbatim)
    (hbuilds : Builds options b segments b') (hverbatim : b.verbatim = none)
    (hfinished : b'.frames = []) : Completes options b.expected segments := by
  induction segments generalizing b with
  | nil =>
    cases builds_nil.mp hbuilds
    rw [expected, hfinished]
    exact .outer (.nothing 1)
  | cons p rest ih =>
    obtain ⟨hp, hothers⟩ := List.forall_mem_cons.mp hraw
    obtain ⟨next, htakes, hrest⟩ := builds_cons.mp hbuilds
    have hafter : Completes options next.expected rest :=
      ih hothers hrest (htakes.verbatim_eq_none hverbatim hp)
    exact htakes.completes hverbatim hp hafter

/-- **What is built of segments is a body of the grammar.** -/
theorem derives_of_builds (hraw : ∀ p ∈ segments, ∀ tag, ¬ p.IsRegistered options tag .verbatim)
    (hbuilds : Builds options {} segments b') (hfinished : b'.frames = []) :
    ∃ kept, Derives options .body 1 segments kept := by
  cases completes_of_builds hraw hbuilds rfl hfinished with
  | outer hbody => exact ⟨_, hbody⟩

end

end Builder

end Stencil
