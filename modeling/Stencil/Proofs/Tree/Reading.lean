import Mathlib.Data.List.Forall2
import Stencil.Proofs.Text.Trim
import Stencil.Proofs.Tree.Grammar

/-!
# The tree that is built is the derivation

A reader of the tree meets its nodes in order, and for a block also the heads of its parts and its end:
`Node.marks`. What the builder makes of the segments of a phrase is read as the segments that the grammar
keeps, one after another (`built_of_derives`).
-/

namespace Stencil

open Parsing

/-! ## Reading a tree -/

/-- The part of a choice that stands behind an optional condition. -/
def Guard.ofCondition : Option Condition → Guard
  | some c => .condition c
  | none => .otherwise

/-- The part of a case that stands behind optional alternatives. -/
def Guard.ofAlternatives : Option (List Expr) → Guard
  | some es => .alternatives es
  | none => .otherwise

/-- What a reader of a tree meets. -/
inductive Mark where
  /-- A text, without the blanks at its ends. -/
  | text (s : String)
  | output (o : Output)
  /-- A tag without a body, or the head of a block. -/
  | tag (tag : Tag)
  /-- The head of a part of a block, other than the first one. -/
  | part (guard : Guard)
  /-- The end of a block. -/
  | ends (block : String)

namespace Node

mutual

/-- What a reader of a node meets. Nothing is met of what stands in front of the first part of a case. -/
def marks (node : Node) : List Mark :=
  match node with
  | .text s => [.text (Text.trimText s)]
  | .output o => [.output o]
  | .assign tag .. | .interrupt tag _ | .cycle tag .. | .raw tag _ | .leaf tag _ => [.tag tag]
  | .choose tag _ branches => .tag tag :: (marksOfBranches branches).drop 1 ++ [.ends tag.name]
  | .case tag _ _ clauses => .tag tag :: marksOfClauses clauses ++ [.ends tag.name]
  | .loop tag _ body otherwise =>
    .tag tag :: marksOfBody body ++ (match otherwise with
      | some nodes => .part .otherwise :: marksOfBody nodes
      | none => []) ++ [.ends tag.name]
  | .table tag _ body | .block tag _ body => .tag tag :: marksOfBody body ++ [.ends tag.name]
termination_by structural node

/-- What a reader of a body meets. -/
def marksOfBody (nodes : List Node) : List Mark :=
  match nodes with
  | [] => []
  | node :: rest => marks node ++ marksOfBody rest
termination_by structural nodes

/-- What a reader of the parts of a choice meets. -/
def marksOfBranches (branches : List (Option Condition × List Node)) : List Mark :=
  match branches with
  | [] => []
  | (c, body) :: rest => .part (.ofCondition c) :: marksOfBody body ++ marksOfBranches rest
termination_by structural branches

/-- What a reader of the parts of a case meets. -/
def marksOfClauses (clauses : List (Option (List Expr) × List Node)) : List Mark :=
  match clauses with
  | [] => []
  | (es, body) :: rest => .part (.ofAlternatives es) :: marksOfBody body ++ marksOfClauses rest
termination_by structural clauses

end

theorem marksOfBody_append (xs ys : List Node) :
    marksOfBody (xs ++ ys) = marksOfBody xs ++ marksOfBody ys := by
  induction xs with
  | nil => rw [marksOfBody, List.nil_append, List.nil_append]
  | cons x xs ih => rw [List.cons_append, marksOfBody, marksOfBody, ih, List.append_assoc]

theorem marksOfBranches_append (xs ys : List (Option Condition × List Node)) :
    marksOfBranches (xs ++ ys) = marksOfBranches xs ++ marksOfBranches ys := by
  induction xs with
  | nil => rw [marksOfBranches, List.nil_append, List.nil_append]
  | cons x xs ih =>
    rw [List.cons_append, marksOfBranches, marksOfBranches, ih, List.append_assoc]

theorem marksOfClauses_append (xs ys : List (Option (List Expr) × List Node)) :
    marksOfClauses (xs ++ ys) = marksOfClauses xs ++ marksOfClauses ys := by
  induction xs with
  | nil => rw [marksOfClauses, List.nil_append, List.nil_append]
  | cons x xs ih =>
    rw [List.cons_append, marksOfClauses, marksOfClauses, ih, List.append_assoc]

/-- A body that is kept last node first is met in its order. -/
theorem marksOfBody_reverse_cons (node : Node) (nodes : List Node) :
    marksOfBody (node :: nodes).reverse = marksOfBody nodes.reverse ++ node.marks := by
  rw [List.reverse_cons, marksOfBody_append]
  simp only [marksOfBody, List.append_nil]

end Node

open Node (marksOfBody marksOfBranches marksOfClauses marksOfBranches_append marksOfClauses_append)

/-! ## Open blocks -/

namespace Frame

/-- A loop has a second part just behind its else, and blocks that nothing continues have one part. -/
def Regular (f : Frame) : Prop :=
  match f.opening with
  | .choose _ | .case _ => True
  | .loop _ => f.parts.length = if f.inOtherwise then 1 else 0
  | .table _ | .block _ => f.parts = []

/-- What a reader meets of an open block. -/
def marks (f : Frame) : List Mark :=
  .tag f.tag :: match f.opening with
    | .choose _ => (marksOfBranches (f.allParts.map branch)).drop 1
    | .case _ => marksOfClauses (f.allParts.tail.map clause)
    | .loop _ => marksOfBody ((f.allParts.head?.map (·.2)).getD []) ++
      (match f.allParts.tail.head? with
        | some part => .part .otherwise :: marksOfBody part.2
        | none => [])
    | .table _ | .block _ => marksOfBody ((f.allParts.head?.map (·.2)).getD [])

/-- When an open block is closed, its end is met behind it. -/
theorem marks_finish (f : Frame) : f.finish.marks = f.marks ++ [.ends f.tag.name] := by
  obtain ⟨tag, opening, parts, guard, nodes⟩ := f
  cases opening with
  | loop header =>
    rw [finish, marks]
    dsimp only
    generalize (allParts ⟨tag, .loop header, parts, guard, nodes⟩).tail.head? = other
    cases other <;> rfl
  | _ => simp only [finish, marks, Node.marks, List.cons_append]

theorem allParts_eq (f : Frame) : f.allParts = f.parts.reverse ++ [(f.guard, f.nodes.reverse)] := by
  rw [allParts, List.reverse_cons]

/-- Whether the current part of an open block is left out of the tree. -/
def inPreamble (f : Frame) : Bool := f.opening.dropsPreamble && f.parts.isEmpty

/-- What is met in front of the current part does not depend on it. -/
theorem marks_with_nodes {f : Frame} (hregular : f.Regular) :
    ∃ before, ∀ nodes, marks { f with nodes } =
      before ++ if f.inPreamble then [] else marksOfBody nodes.reverse := by
  obtain ⟨tag, opening, parts, guard, current⟩ := f
  cases opening with
  | choose negated =>
    -- the head of the current part is met in front of it, unless it is the first one
    refine ⟨.tag tag :: (marksOfBranches (parts.reverse.map branch) ++
      [Mark.part (.ofCondition (branch (guard, [])).1)]).drop 1, fun nodes => ?_⟩
    have hlast : marksOfBranches [branch (guard, nodes.reverse)] =
        [.part (.ofCondition (branch (guard, [])).1)] ++ marksOfBody nodes.reverse := by
      cases guard <;> simp only [branch, marksOfBranches, List.append_nil, List.singleton_append]
    simp only [marks, allParts_eq, inPreamble, Opening.dropsPreamble, Bool.false_and,
      Bool.false_eq_true, if_false, List.map_append, List.map_cons, List.map_nil,
      marksOfBranches_append, hlast]
    rw [← List.append_assoc, List.drop_append_of_le_length (by simp), List.cons_append]
  | case subject =>
    cases parts with
    | nil => exact ⟨[.tag tag], fun nodes => rfl⟩
    | cons part parts =>
      refine ⟨.tag tag :: (marksOfClauses ((part :: parts).reverse.tail.map clause) ++
        [.part (.ofAlternatives (clause (guard, [])).1)]), fun nodes => ?_⟩
      have hlast : marksOfClauses [clause (guard, nodes.reverse)] =
          [.part (.ofAlternatives (clause (guard, [])).1)] ++ marksOfBody nodes.reverse := by
        cases guard <;> simp only [clause, marksOfClauses, List.append_nil, List.singleton_append]
      simp only [marks, allParts_eq, inPreamble, List.isEmpty_cons, Bool.and_false,
        Bool.false_eq_true, if_false]
      rw [List.tail_append_of_ne_nil (by simp), List.map_append, marksOfClauses_append,
        List.map_cons, List.map_nil, hlast, ← List.append_assoc, List.cons_append]
  | loop header =>
    have hparts : parts = [] ∨ ∃ part, parts = [part] := by
      have hlength : parts.length = _ := hregular
      split at hlength
      · exact .inr (List.length_eq_one_iff.mp hlength)
      · exact .inl (List.length_eq_zero_iff.mp hlength)
    rcases hparts with rfl | ⟨part, rfl⟩
    · refine ⟨[.tag tag], fun nodes => ?_⟩
      simp only [marks, allParts_eq]
      simp [inPreamble, Opening.dropsPreamble]
    · refine ⟨.tag tag :: marksOfBody part.2 ++ [.part .otherwise], fun nodes => ?_⟩
      simp only [marks, allParts_eq]
      simp [inPreamble, Opening.dropsPreamble]
  | table header =>
    obtain rfl : parts = [] := hregular
    refine ⟨[.tag tag], fun nodes => ?_⟩
    simp only [marks, allParts_eq]
    simp [inPreamble, Opening.dropsPreamble]
  | block kind =>
    obtain rfl : parts = [] := hregular
    refine ⟨[.tag tag], fun nodes => ?_⟩
    simp only [marks, allParts_eq]
    simp [inPreamble, Opening.dropsPreamble]

/-- What is added to the current part is met behind what was there. -/
theorem marks_of_more {f : Frame} (hregular : f.Regular) {nodes : List Node} {more : List Mark}
    (hmore : marksOfBody nodes.reverse = marksOfBody f.nodes.reverse ++ more) :
    marks { f with nodes } = f.marks ++ if f.inPreamble then [] else more := by
  obtain ⟨before, hbefore⟩ := marks_with_nodes hregular
  rw [hbefore nodes, show f.marks = _ from hbefore f.nodes]
  split
  · rw [List.append_nil, List.append_nil]
  · rw [hmore, List.append_assoc]

/-- What a reader meets of a block that has just been opened is its head. -/
theorem marks_opened (tag : Tag) (opening : Opening) (guard : Guard) :
    marks { tag, opening, guard } = [.tag tag] := by
  cases opening with
  | choose negated => cases guard <;> simp [marks, allParts, branch, marksOfBranches, marksOfBody]
  | _ => simp [marks, allParts, marksOfClauses, marksOfBody]

section

variable {options : ParseOptions} {f : Frame} {p : Segment.Placed} {guard : Guard} {k : Continuation}

theorem allParts_startPart (f : Frame) (guard : Guard) :
    (f.startPart guard).allParts = f.allParts ++ [(guard, [])] := by
  simp [allParts, startPart]

theorem marks_startPart_of_choose {negated : Bool} (hopening : f.opening = .choose negated)
    (hguard : Guard.ofCondition (branch (guard, [])).1 = guard) :
    (f.startPart guard).marks = f.marks ++ [.part guard] := by
  have hsome : 1 ≤ (marksOfBranches (f.allParts.map branch)).length := by
    rw [allParts_eq, List.map_append, marksOfBranches_append, List.map_singleton, marksOfBranches]
    simp only [List.length_append, List.length_cons]
    omega
  have hpart : marksOfBranches ([(guard, [])].map branch) = [.part guard] := by
    rw [List.map_singleton, marksOfBranches, marksOfBranches, hguard]
    cases guard <;> rfl
  unfold marks
  rw [show (f.startPart guard).opening = f.opening from rfl, hopening]
  dsimp only
  rw [allParts_startPart, List.map_append, marksOfBranches_append, hpart,
    List.drop_append_of_le_length hsome, List.cons_append]
  rfl

theorem marks_startPart_of_case {subject : Expr} (hopening : f.opening = .case subject)
    (hguard : Guard.ofAlternatives (clause (guard, [])).1 = guard) :
    (f.startPart guard).marks = f.marks ++ [.part guard] := by
  have hsome : f.allParts ≠ [] := by simp [allParts_eq]
  have hpart : marksOfClauses ([(guard, [])].map clause) = [.part guard] := by
    rw [List.map_singleton, marksOfClauses, marksOfClauses, hguard]
    cases guard <;> rfl
  unfold marks
  rw [show (f.startPart guard).opening = f.opening from rfl, hopening]
  dsimp only
  rw [allParts_startPart, List.tail_append_of_ne_nil hsome, List.map_append, marksOfClauses_append,
    hpart, List.cons_append]
  rfl

theorem marks_startPart_of_loop {header : LoopHeader} (hopening : f.opening = .loop header)
    (hnone : f.parts = []) : (f.startPart .otherwise).marks = f.marks ++ [.part .otherwise] := by
  have hparts : f.allParts = [(f.guard, f.nodes.reverse)] := by
    rw [allParts_eq, hnone, List.reverse_nil, List.nil_append]
  unfold marks
  rw [show (f.startPart .otherwise).opening = f.opening from rfl, hopening]
  dsimp only
  rw [allParts_startPart, hparts]
  simp only [List.head?_cons, List.tail_cons, List.head?_nil, Option.map_some, Option.getD_some,
    List.append_nil, List.cons_append]
  rfl

/-- The head of a part is met behind what was there. -/
theorem marks_startPart (hregular : f.Regular)
    (hcontinues : Continues options f.tag.name p f.continuation (some guard) k) :
    (f.startPart guard).marks = f.marks ++ [.part guard] := by
  generalize hk : f.continuation = k₀ at hcontinues
  cases hcontinues with
  | elsif _ _ _ | branchElse _ _ =>
    obtain ⟨negated, hopening⟩ := opening_of_branches hk
    exact marks_startPart_of_choose hopening rfl
  | «when» _ _ _ _ | clauseElse _ _ _ =>
    obtain ⟨subject, hopening⟩ := opening_of_clauses hk
    exact marks_startPart_of_case hopening rfl
  | loopElse _ _ =>
    obtain ⟨header, hopening, hin⟩ := opening_of_fallback hk
    rw [Regular, hopening, hin] at hregular
    exact marks_startPart_of_loop hopening (List.length_eq_zero_iff.mp hregular)

/-- An open block in which a part is started keeps to the parts it may have. -/
theorem regular_startPart (hregular : f.Regular)
    (hcontinues : Continues options f.tag.name p f.continuation (some guard) k) :
    (f.startPart guard).Regular := by
  generalize hk : f.continuation = k₀ at hcontinues
  unfold Regular
  rw [show (f.startPart guard).opening = f.opening from rfl]
  cases hcontinues with
  | elsif _ _ _ | branchElse _ _ =>
    obtain ⟨negated, hopening⟩ := opening_of_branches hk
    rw [hopening]
    trivial
  | «when» _ _ _ _ | clauseElse _ _ _ =>
    obtain ⟨subject, hopening⟩ := opening_of_clauses hk
    rw [hopening]
    trivial
  | loopElse _ _ =>
    obtain ⟨header, hopening, hin⟩ := opening_of_fallback hk
    rw [Regular, hopening, hin] at hregular
    rw [hopening]
    dsimp only [startPart]
    rw [List.length_cons, List.length_eq_zero_iff.mp hregular]
    rfl

end

end Frame

/-! ## Segments in the tree -/

/-- The segment stands in the tree at this mark. -/
inductive Segment.Placed.Reads (options : ParseOptions) (p : Segment.Placed) : Mark → Prop
  | text (hkind : p.segment.kind = .text) : Reads options p (.text (Text.trimText p.segment.text))
  | output {markup : List Char} {o : Output} (houtput : p.IsOutput markup)
    (hread : (Builder.readOutput options p.line markup).outcome = .ok o) :
    Reads options p (.output o)
  | tag {tag : Tag} {reading : TagReading} (htag : p.IsRegistered options tag reading) :
    Reads options p (.tag tag)
  | part {block : String} {k k' : Continuation} {guard : Guard}
    (hcontinues : Continues options block p k (some guard) k') : Reads options p (.part guard)
  | ends {block : String} (hends : p.Ends options block) : Reads options p (.ends block)

namespace Builder

/-- More nodes were added to the innermost body, of which a reader meets `more`. -/
def Adds (b b' : Builder) (more : List Mark) : Prop :=
  ∃ nodes trimNext, b' = { b.setCurrent nodes with trimNext } ∧
    marksOfBody nodes.reverse = marksOfBody b.current.reverse ++ more

section

variable {b b' b'' : Builder} {more others : List Mark}

theorem setCurrent_current (b : Builder) : b.setCurrent b.current = b := by
  obtain ⟨outer, frames, verbatim, trimNext⟩ := b
  cases frames <;> rfl

theorem adds_refl (b : Builder) : Adds b b [] :=
  ⟨b.current, b.trimNext, by rw [setCurrent_current], (List.append_nil _).symm⟩

theorem Adds.trans (h : Adds b b' more) (h' : Adds b' b'' others) : Adds b b'' (more ++ others) := by
  obtain ⟨nodes, trimNext, rfl, hnodes⟩ := h
  obtain ⟨nodes', trimNext', rfl, hnodes'⟩ := h'
  refine ⟨nodes', trimNext', ?_, ?_⟩
  · obtain ⟨outer, frames, verbatim, trim⟩ := b
    cases frames <;> rfl
  · rw [hnodes', ← List.append_assoc, ← hnodes]
    obtain ⟨outer, frames, verbatim, trim⟩ := b
    cases frames <;> rfl

theorem adds_add (b : Builder) (node : Node) : Adds b (b.add node) node.marks := by
  refine ⟨node :: b.current, b.trimNext, ?_, Node.marksOfBody_reverse_cons node b.current⟩
  obtain ⟨outer, frames, verbatim, trimNext⟩ := b
  cases frames <;> rfl

/-- Whether the next text is to lose the blanks in front is no part of the tree. -/
theorem Adds.of_trimNext {trimNext : Bool} (h : Adds { b with trimNext } b' more) :
    Adds b b' more := by
  obtain ⟨nodes, trimNext', rfl, hnodes⟩ := h
  refine ⟨nodes, trimNext', ?_, ?_⟩
  · obtain ⟨outer, frames, verbatim, trim⟩ := b
    cases frames <;> rfl
  · rw [hnodes]
    obtain ⟨outer, frames, verbatim, trim⟩ := b
    cases frames <;> rfl

theorem Adds.set_trimNext (h : Adds b b' more) (trimNext : Bool) :
    Adds b { b' with trimNext } more := by
  obtain ⟨nodes, trimNext', rfl, hnodes⟩ := h
  exact ⟨nodes, trimNext, rfl, hnodes⟩

theorem adds_addText (b : Builder) (s : Segment) :
    Adds b (b.addText s) [.text (Text.trimText s.text)] := by
  have hmarks : Node.marks (.text (if b.trimNext then Text.trimLeftText s.text else s.text)) =
      [.text (Text.trimText s.text)] := by
    rw [Node.marks]
    split
    · rw [Text.trimText_trimLeftText]
    · rfl
  rw [← hmarks]
  exact (adds_add b _).set_trimNext false

/-- Trimming takes blanks off a text, which a reader does not meet. -/
theorem marksOfBody_trimLast (nodes : List Node) :
    marksOfBody (trimLast nodes).reverse = marksOfBody nodes.reverse := by
  unfold trimLast
  split
  · rw [Node.marksOfBody_reverse_cons, Node.marksOfBody_reverse_cons, Node.marks, Node.marks,
      Text.trimText_trimRightText]
  · rfl

theorem adds_applyTrims (b : Builder) (s : Segment) : Adds b (b.applyTrims s) [] := by
  unfold applyTrims
  dsimp only
  split
  · exact ⟨trimLast b.current, s.trimsRight, rfl, by
      rw [marksOfBody_trimLast, List.append_nil]⟩
  · exact (adds_refl b).set_trimNext s.trimsRight

theorem Adds.verbatim (h : Adds b b' more) : b'.verbatim = b.verbatim := by
  obtain ⟨nodes, trimNext, rfl, -⟩ := h
  exact verbatim_setCurrent b nodes

theorem Adds.length_frames (h : Adds b b' more) : b'.frames.length = b.frames.length := by
  obtain ⟨nodes, trimNext, rfl, -⟩ := h
  exact length_frames_setCurrent b nodes

/-- Inside a block, only the current part of the block changes. -/
theorem Adds.inside (h : Adds b b' more) {f : Frame} {rest : List Frame}
    (hframes : b.frames = f :: rest) :
    ∃ nodes trimNext, b' = { b with frames := { f with nodes } :: rest, trimNext } ∧
      marksOfBody nodes.reverse = marksOfBody f.nodes.reverse ++ more := by
  obtain ⟨nodes, trimNext, rfl, hnodes⟩ := h
  refine ⟨nodes, trimNext, ?_, ?_⟩
  · rw [setCurrent, hframes]
  · rw [hnodes, current, hframes]

end

/-- What the builder makes of a body: its nodes are added to the innermost one. -/
def BuiltBody (options : ParseOptions) (n : Nat) (segments kept : List Segment.Placed) : Prop :=
  ∀ b : Builder, b.verbatim = none → b.frames.length + 1 = n →
    ∃ b' marks, Builds options b segments b' ∧ Adds b b' marks ∧
      List.Forall₂ (Segment.Placed.Reads options) kept marks

/-- What the builder makes of what is left of a block: the block is closed, and its node is added to the
body around it. -/
def BuiltTail (options : ParseOptions) (block : String) (k : Continuation) (n : Nat)
    (segments kept : List Segment.Placed) : Prop :=
  ∀ (b : Builder) (f : Frame) (others : List Frame), b.verbatim = none → b.frames = f :: others →
    f.Regular → f.tag.name = block → f.continuation = k → b.frames.length + 1 = n →
    ∃ b' marks, Builds options b segments b' ∧
      Adds { b with frames := others } b' (f.marks ++ marks) ∧
      List.Forall₂ (Segment.Placed.Reads options) kept marks

/-- What the builder makes of a phrase. -/
def Built (options : ParseOptions) : Phrase → Nat → List Segment.Placed → List Segment.Placed → Prop
  | .body => BuiltBody options
  | .tail block k => BuiltTail options block k

section

variable {options : ParseOptions} {n : Nat} {p : Segment.Placed}
  {first tail rest kept keptTail keptRest : List Segment.Placed}

/-- A node that is read of a registered tag is met as its tag. -/
theorem marks_of_isRegistered {tag : Tag} {node : Node}
    (htag : p.IsRegistered options tag (.node node)) : node.marks = [.tag tag] := by
  obtain ⟨kind, -, hreads⟩ := readsAs_of_isRegistered htag
  cases hreads <;> rfl

theorem regular_opened {tag : Tag} {opening : Opening} {guard : Guard}
    (htag : p.IsRegistered options tag (.opens opening guard)) :
    Frame.Regular { tag, opening, guard } := by
  obtain ⟨kind, -, hreads⟩ := readsAs_of_isRegistered htag
  cases hreads <;> trivial

/-- A segment that adds a node may stand in front of a body. -/
theorem BuiltBody.cons {mark : Mark} (hreads : p.Reads options mark)
    (htakes : ∀ b : Builder, b.verbatim = none → ∃ next, Takes options b p next ∧ Adds b next [mark])
    (hrest : BuiltBody options n rest kept) : BuiltBody options n (p :: rest) (p :: kept) := by
  intro b hverbatim hdepth
  obtain ⟨next, hnext, hadds⟩ := htakes b hverbatim
  obtain ⟨b', marks, hbuilds, hadds', hmarks⟩ :=
    hrest next (hadds.verbatim.trans hverbatim) (by rw [hadds.length_frames, hdepth])
  exact ⟨b', mark :: marks, builds_cons.mpr ⟨next, hnext, hbuilds⟩, hadds.trans hadds',
    .cons hreads hmarks⟩

/-- A block is opened, its first body is added to it, what is left of it closes it, and what follows is
added behind it. -/
theorem BuiltBody.block {tag : Tag} {opening : Opening} {guard : Guard}
    (htag : p.IsRegistered options tag (.opens opening guard)) (hdepth : (n : Int) < options.maxDepth)
    (hfirst : BuiltBody options (n + 1) first kept)
    (htail : BuiltTail options tag.name opening.continuation (n + 1) tail keptTail)
    (hrest : BuiltBody options n rest keptRest) :
    BuiltBody options n (p :: first ++ tail ++ rest)
      (p :: (if opening.dropsPreamble then [] else kept) ++ keptTail ++ keptRest) := by
  intro b hverbatim hlevel
  have hregular := regular_opened htag
  -- the head
  let outer := b.applyTrims p.segment
  let opened : Builder := { outer with frames := { tag, opening, guard } :: outer.frames }
  have houter : Adds b outer [] := adds_applyTrims b p.segment
  have hopens : Takes options b p opened := .opens hverbatim htag (by omega)
  have hlength : opened.frames.length = n := by
    change outer.frames.length + 1 = n
    rw [houter.length_frames, hlevel]
  -- the first body
  obtain ⟨b₁, marks, hbuilds, hadds, hmarks⟩ :=
    hfirst opened (houter.verbatim.trans hverbatim) (by rw [hlength])
  obtain ⟨nodes, trimNext, rfl, hnodes⟩ := hadds.inside (f := { tag, opening, guard }) rfl
  -- what is left of the block
  obtain ⟨b₂, marksTail, hbuildsTail, haddsTail, hmarksTail⟩ :=
    htail { opened with frames := { tag, opening, guard, nodes } :: outer.frames, trimNext } _
      outer.frames (houter.verbatim.trans hverbatim) rfl hregular rfl (continuation_opened htag)
      (by rw [← hlength]; rfl)
  have hclosed : Adds b b₂ (.tag tag :: (if opening.dropsPreamble then [] else marks) ++ marksTail) := by
    have hframe : Frame.marks { tag, opening, guard, nodes } =
        .tag tag :: if opening.dropsPreamble then [] else marks := by
      rw [Frame.marks_of_more (f := { tag, opening, guard }) hregular hnodes,
        Frame.marks_opened, Frame.inPreamble, List.isEmpty_nil, Bool.and_true]
      rfl
    rw [hframe] at haddsTail
    exact houter.trans (haddsTail.of_trimNext)
  -- what follows
  obtain ⟨b₃, marksRest, hbuildsRest, haddsRest, hmarksRest⟩ :=
    hrest b₂ (hclosed.verbatim.trans hverbatim) (by rw [hclosed.length_frames, hlevel])
  refine ⟨b₃, _, ?_, hclosed.trans haddsRest, ?_⟩
  · exact ((builds_cons.mpr ⟨opened, hopens, hbuilds⟩).append hbuildsTail).append hbuildsRest
  · have hkept : List.Forall₂ (Segment.Placed.Reads options)
        (if opening.dropsPreamble then [] else kept) (if opening.dropsPreamble then [] else marks) := by
      split
      · exact .nil
      · exact hmarks
    exact List.rel_append (List.rel_append (.cons (.tag htag) hkept) hmarksTail) hmarksRest

/-- The end of a block closes it. -/
theorem BuiltTail.ends {block : String} {k : Continuation} (hends : p.Ends options block) :
    BuiltTail options block k n [p] [p] := by
  intro b f others hverbatim hframes hregular hname hk hlevel
  obtain ⟨tag, markup, hbare, htag⟩ := hends
  obtain ⟨nodes, trimNext, houter, hnodes⟩ := (adds_applyTrims b p.segment).inside hframes
  have hframes' : (b.applyTrims p.segment).frames = { f with nodes } :: others := by rw [houter]
  have hread := readPart_of_ends (f := { f with nodes }) options p.line markup
    (htag.trans (by rw [hname]))
  refine ⟨_, [.ends block], (Takes.ends hverbatim hbare hframes' hread).builds, ?_,
    .cons (.ends ⟨tag, markup, hbare, htag⟩) .nil⟩
  have hmarks : (Frame.finish { f with nodes }).marks = f.marks ++ [.ends block] := by
    rw [Frame.marks_finish, Frame.marks_of_more hregular hnodes, ← hname, ite_self, List.append_nil]
  have hadds : Adds { b.applyTrims p.segment with frames := others }
      ({ b.applyTrims p.segment with frames := others }.add (Frame.finish { f with nodes }))
      (f.marks ++ [.ends block]) := hmarks ▸ adds_add _ _
  rw [houter] at hadds ⊢
  exact hadds.of_trimNext

/-- A tag that continues a block leaves it open, with a new part or with the same one. -/
theorem takes_of_continues {b : Builder} {f : Frame} {others : List Frame} {k : Continuation}
    {guard : Option Guard} (hverbatim : b.verbatim = none) (hframes : b.frames = f :: others)
    (hregular : f.Regular)
    (hcontinues : Continues options f.tag.name p f.continuation guard k) :
    ∃ next f' trimNext marks, next = { b with frames := f' :: others, trimNext } ∧
      Takes options b p next ∧ f'.Regular ∧ f'.tag = f.tag ∧ f'.continuation = k ∧
      f'.inPreamble = false ∧ f'.marks = f.marks ++ marks ∧
      List.Forall₂ (Segment.Placed.Reads options) (if guard.isSome then [p] else []) marks := by
  obtain ⟨nodes, trimNext, houter, hnodes⟩ := (adds_applyTrims b p.segment).inside hframes
  have hframes' : (b.applyTrims p.segment).frames = { f with nodes } :: others := by rw [houter]
  have hmarks : Frame.marks { f with nodes } = f.marks := by
    rw [Frame.marks_of_more hregular hnodes, ite_self, List.append_nil]
  obtain ⟨tag, markup, reading, hbare, hread, ⟨g, rfl, rfl, hk⟩ | ⟨rfl, rfl, hk⟩⟩ :=
    readPart_of_continues (f := { f with nodes }) hcontinues
  · have hregular' := Frame.regular_startPart (f := { f with nodes }) hregular hcontinues
    have hmarks' := Frame.marks_startPart (f := { f with nodes }) hregular hcontinues
    refine ⟨_, Frame.startPart { f with nodes } g, trimNext, [.part g], ?_,
      .starts hverbatim hbare hframes' hread, hregular', rfl, hk, ?_, by rw [hmarks', hmarks],
      .cons (.part hcontinues) .nil⟩
    · rw [houter]
    · exact Bool.and_false _
  · have hopening : f.opening = .block .comment := by
      generalize hk₀ : f.continuation = k₀ at hcontinues
      cases hcontinues
      exact Frame.opening_of_anything hk₀
    refine ⟨_, { f with nodes }, trimNext, [], houter, .skipped hverbatim hbare hframes' hread,
      hregular, rfl, hk, ?_, by rw [hmarks, List.append_nil], .nil⟩
    rw [Frame.inPreamble]
    dsimp only
    rw [hopening]
    rfl

/-- A tag that continues a block, and a body behind it, leave the block open. -/
theorem BuiltTail.part {block : String} {k k' : Continuation} {guard : Option Guard}
    (hcontinues : Continues options block p k guard k') (hbody : BuiltBody options n first kept)
    (htail : BuiltTail options block k' n tail keptTail) :
    BuiltTail options block k n (p :: first ++ tail)
      ((if guard.isSome then [p] else []) ++ kept ++ keptTail) := by
  rintro b f others hverbatim hframes hregular rfl rfl hlevel
  obtain ⟨next, f', trimNext, head, rfl, htakes, hregular', hname, hk, hin, hhead, hreads⟩ :=
    takes_of_continues hverbatim hframes hregular hcontinues
  have hlevel' : (f' :: others).length + 1 = n := by
    rw [← hlevel, hframes, List.length_cons, List.length_cons]
  obtain ⟨b₁, marks, hbuilds, hadds, hmarks⟩ :=
    hbody { b with frames := f' :: others, trimNext } hverbatim hlevel'
  obtain ⟨nodes, trimNext', rfl, hnodes⟩ := hadds.inside (f := f') rfl
  obtain ⟨b₂, marksTail, hbuildsTail, haddsTail, hmarksTail⟩ :=
    htail { b with frames := { f' with nodes } :: others, trimNext := trimNext' } _ others hverbatim
      rfl hregular' (by rw [← hname]) hk hlevel'
  refine ⟨b₂, head ++ marks ++ marksTail,
    (builds_cons.mpr ⟨_, htakes, hbuilds⟩).append hbuildsTail, ?_,
    List.rel_append (List.rel_append hreads hmarks) hmarksTail⟩
  have hframe : Frame.marks { f' with nodes } = f.marks ++ (head ++ marks) := by
    rw [Frame.marks_of_more hregular' hnodes, hin, hhead, List.append_assoc]
    rfl
  rw [hframe, List.append_assoc] at haddsTail
  exact haddsTail.of_trimNext

/-- **The builder takes every phrase of the grammar**, and what it makes of it is read as the segments
that the grammar keeps. Induction on the derivation. -/
theorem built_of_derives {phrase : Phrase} {segments : List Segment.Placed}
    (h : Derives options phrase n segments kept) : Built options phrase n segments kept := by
  induction h with
  | nothing n => exact fun b _ _ => ⟨b, [], builds_nil.mpr rfl, adds_refl b, .nil⟩
  | text hkind _ ih =>
    exact BuiltBody.cons (.text hkind) (fun b hverbatim => ⟨_, .text hverbatim hkind,
      adds_addText b _⟩) ih
  | @output n p markup o rest kept houtput hread _ ih =>
    refine BuiltBody.cons (.output houtput hread) (fun b hverbatim => ?_) ih
    have hmarks : (Node.output o).marks = [.output o] := by rw [Node.marks]
    exact ⟨_, .output hverbatim houtput hread, hmarks ▸ (adds_applyTrims b p.segment).trans (adds_add _ _)⟩
  | @node n p tag node rest kept htag _ ih =>
    refine BuiltBody.cons (.tag htag) (fun b hverbatim => ?_) ih
    have hmarks := marks_of_isRegistered htag
    exact ⟨_, .node hverbatim htag, hmarks ▸ (adds_applyTrims b p.segment).trans (adds_add _ _)⟩
  | block htag hdepth _ _ _ hfirst htail hrest => exact BuiltBody.block htag hdepth hfirst htail hrest
  | ends hends => exact BuiltTail.ends hends
  | part hcontinues _ _ hbody htail => exact BuiltTail.part hcontinues hbody htail

end

end Builder

end Stencil
