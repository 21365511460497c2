import Stencil.Proofs.Tree.Faults
import Stencil.Proofs.Tree.Verbatim

/-!
# The lines of a tree are those of its source

* `Node.landmarks`: the tags and outputs of a node at all depths, in the order of the source.
* `Stands options before section segments landmarks`: of these segments, which follow others, the tags and
  outputs are these, each on the line that the line breaks in front of it give.
* `stands_of_builds`: whatever the builder makes of segments stands in them.
-/

namespace Stencil

open Parsing

/-! ## Tags and outputs of a tree -/

/-- A tag or output of a tree. An assignment is a tag with an output of its own. -/
inductive Landmark where
  | output (o : Output)
  | tag (tag : Tag) (source : Option Output)

namespace Node

mutual

/-- The tags and outputs of a node, at all depths. -/
def landmarks (node : Node) : List Landmark :=
  match node with
  | .text _ => []
  | .output o => [.output o]
  | .assign tag _ source => [.tag tag (some source)]
  | .interrupt tag _ | .cycle tag .. | .raw tag _ | .leaf tag _ => [.tag tag none]
  | .choose tag _ branches => .tag tag none :: landmarksOfBranches branches
  | .case tag _ preamble clauses =>
    .tag tag none :: (landmarksOfBody preamble ++ landmarksOfClauses clauses)
  | .loop tag _ body otherwise =>
    .tag tag none :: (landmarksOfBody body ++ (match otherwise with
      | some nodes => landmarksOfBody nodes
      | none => []))
  | .table tag _ body | .block tag _ body => .tag tag none :: landmarksOfBody body
termination_by structural node

/-- The tags and outputs of a body. -/
def landmarksOfBody (nodes : List Node) : List Landmark :=
  match nodes with
  | [] => []
  | node :: rest => landmarks node ++ landmarksOfBody rest
termination_by structural nodes

/-- The tags and outputs behind conditions. -/
def landmarksOfBranches (branches : List (Option Condition × List Node)) : List Landmark :=
  match branches with
  | [] => []
  | (_, body) :: rest => landmarksOfBody body ++ landmarksOfBranches rest
termination_by structural branches

/-- The tags and outputs behind alternatives. -/
def landmarksOfClauses (clauses : List (Option (List Expr) × List Node)) : List Landmark :=
  match clauses with
  | [] => []
  | (_, body) :: rest => landmarksOfBody body ++ landmarksOfClauses rest
termination_by structural clauses

end

theorem landmarksOfBody_eq_flatMap (nodes : List Node) :
    landmarksOfBody nodes = nodes.flatMap landmarks := by
  induction nodes with
  | nil => rw [landmarksOfBody, List.flatMap_nil]
  | cons node rest ih => rw [landmarksOfBody, List.flatMap_cons, ih]

theorem landmarksOfBranches_eq_flatMap (branches : List (Option Condition × List Node)) :
    landmarksOfBranches branches = branches.flatMap fun branch => landmarksOfBody branch.2 := by
  induction branches with
  | nil => rw [landmarksOfBranches, List.flatMap_nil]
  | cons branch rest ih => rw [landmarksOfBranches, List.flatMap_cons, ih]

theorem landmarksOfClauses_eq_flatMap (clauses : List (Option (List Expr) × List Node)) :
    landmarksOfClauses clauses = clauses.flatMap fun clause => landmarksOfBody clause.2 := by
  induction clauses with
  | nil => rw [landmarksOfClauses, List.flatMap_nil]
  | cons clause rest ih => rw [landmarksOfClauses, List.flatMap_cons, ih]

/-- A body that is kept last node first is met in its order. -/
theorem landmarksOfBody_reverse_cons (node : Node) (nodes : List Node) :
    landmarksOfBody (node :: nodes).reverse = landmarksOfBody nodes.reverse ++ node.landmarks := by
  simp [landmarksOfBody_eq_flatMap]

end Node

open Node (landmarksOfBody landmarksOfBody_reverse_cons)

/-! ## Tags and outputs of what is being built -/

namespace Frame

/-- The tags and outputs of an open block. -/
def landmarks (f : Frame) : List Landmark :=
  .tag f.tag none :: f.allParts.flatMap fun part => landmarksOfBody part.2

/-- What is added to the current part is met last. -/
theorem landmarks_with_nodes (f : Frame) (nodes : List Node) :
    landmarks { f with nodes } =
      .tag f.tag none :: (f.parts.reverse.flatMap fun part => landmarksOfBody part.2) ++
        landmarksOfBody nodes.reverse := by
  simp [landmarks, allParts_eq]

/-- A new part has nothing in it. -/
theorem landmarks_startPart (f : Frame) (guard : Guard) :
    (f.startPart guard).landmarks = f.landmarks := by
  rw [landmarks, allParts_startPart, List.flatMap_append, List.flatMap_singleton, landmarksOfBody,
    List.append_nil]
  rfl

/-- What the parts stand behind makes no difference. -/
theorem landmarksOfBranches_map_branch (parts : List (Guard × Body)) :
    Node.landmarksOfBranches (parts.map branch) = parts.flatMap fun part => landmarksOfBody part.2 := by
  rw [Node.landmarksOfBranches_eq_flatMap, List.flatMap_map]
  congr 1
  funext ⟨guard, body⟩
  cases guard <;> rfl

theorem landmarksOfClauses_map_clause (parts : List (Guard × Body)) :
    Node.landmarksOfClauses (parts.map clause) = parts.flatMap fun part => landmarksOfBody part.2 := by
  rw [Node.landmarksOfClauses_eq_flatMap, List.flatMap_map]
  congr 1
  funext ⟨guard, body⟩
  cases guard <;> rfl

/-- A block that is closed keeps its tags and outputs. -/
theorem landmarks_finish {f : Frame} (hregular : f.Regular) : f.finish.landmarks = f.landmarks := by
  obtain ⟨tag, opening, parts, guard, nodes⟩ := f
  cases opening with
  | choose negated => rw [finish, Node.landmarks, landmarksOfBranches_map_branch, landmarks]
  | case subject =>
    obtain ⟨first, others, hparts⟩ :
        ∃ first others, (Frame.mk tag (.case subject) parts guard nodes).allParts = first :: others :=
      List.exists_cons_of_ne_nil (by simp [allParts_eq])
    rw [finish, Node.landmarks, landmarksOfClauses_map_clause, landmarks, hparts]
    rfl
  | loop header =>
    -- a loop has one part or two
    have hlength : parts.length = _ := hregular
    split at hlength
    · obtain ⟨part, rfl⟩ := List.length_eq_one_iff.mp hlength
      simp [finish, landmarks, allParts_eq, Node.landmarks]
    · obtain rfl := List.length_eq_zero_iff.mp hlength
      simp [finish, landmarks, allParts_eq, Node.landmarks]
  | table header =>
    obtain rfl : parts = [] := hregular
    simp [finish, landmarks, allParts_eq, Node.landmarks]
  | block kind =>
    obtain rfl : parts = [] := hregular
    simp [finish, landmarks, allParts_eq, Node.landmarks]

end Frame

namespace Builder

variable {options : ParseOptions} {b b' : Builder} {p : Segment.Placed}

/-- The tags and outputs that have been met so far. -/
def landmarks (b : Builder) : List Landmark :=
  landmarksOfBody b.nodes.reverse ++ b.frames.reverse.flatMap Frame.landmarks ++
    b.verbatim.toList.map fun v => .tag v.tag none

/-- What is added to the innermost body is met last. -/
theorem landmarks_setCurrent (hverbatim : b.verbatim = none) {nodes : List Node} {more : List Landmark}
    (hmore : landmarksOfBody nodes.reverse = landmarksOfBody b.current.reverse ++ more) :
    (b.setCurrent nodes).landmarks = b.landmarks ++ more := by
  obtain ⟨outer, frames, verbatim, trimNext⟩ := b
  obtain rfl : verbatim = none := hverbatim
  cases frames with
  | nil =>
    have houter : landmarksOfBody nodes.reverse = landmarksOfBody outer.reverse ++ more := hmore
    simp [setCurrent, landmarks, houter]
  | cons f rest =>
    have hinner : landmarksOfBody nodes.reverse = landmarksOfBody f.nodes.reverse ++ more := hmore
    have hframe := f.landmarks_with_nodes nodes
    have hbefore := f.landmarks_with_nodes f.nodes
    rw [hinner, ← List.append_assoc, ← hbefore] at hframe
    simp [setCurrent, landmarks, hframe]

theorem landmarks_add (hverbatim : b.verbatim = none) (node : Node) :
    (b.add node).landmarks = b.landmarks ++ node.landmarks :=
  landmarks_setCurrent hverbatim (landmarksOfBody_reverse_cons node b.current)

/-- Trimming takes blanks off a text. -/
theorem landmarks_applyTrims (hverbatim : b.verbatim = none) (s : Segment) :
    (b.applyTrims s).landmarks = b.landmarks := by
  have htrim (nodes : List Node) :
      landmarksOfBody (trimLast nodes).reverse = landmarksOfBody nodes.reverse := by
    unfold trimLast
    split
    · rw [landmarksOfBody_reverse_cons, landmarksOfBody_reverse_cons, Node.landmarks, Node.landmarks]
    · rfl
  unfold applyTrims
  dsimp only
  split
  · have hset : (b.setCurrent (trimLast b.current)).landmarks = b.landmarks ++ [] :=
      landmarks_setCurrent hverbatim ((htrim b.current).trans (List.append_nil _).symm)
    rw [List.append_nil] at hset
    exact hset
  · rfl

/-! ### Opening and closing -/

/-- What is open is met where it was opened. -/
theorem landmarks_openFrame (hverbatim : b.verbatim = none) (tag : Tag) (opening : Opening)
    (guard : Guard) :
    landmarks { b with frames := { tag, opening, guard } :: b.frames } =
      b.landmarks ++ [.tag tag none] := by
  obtain ⟨outer, frames, verbatim, trimNext⟩ := b
  obtain rfl : verbatim = none := hverbatim
  simp [landmarks, Frame.landmarks, Frame.allParts, landmarksOfBody]

theorem landmarks_openVerbatim (hverbatim : b.verbatim = none) (tag : Tag) :
    landmarks { b with verbatim := some { tag } } = b.landmarks ++ [.tag tag none] := by
  rw [landmarks, landmarks, hverbatim]
  simp

/-- A block that is closed is met as it was while it was open. -/
theorem landmarks_closeFrame {f : Frame} {rest : List Frame} (hverbatim : b.verbatim = none)
    (hframes : b.frames = f :: rest) (hregular : f.Regular) :
    ({ b with frames := rest }.add f.finish).landmarks = b.landmarks := by
  have hadd := landmarks_add (b := { b with frames := rest }) hverbatim f.finish
  rw [Frame.landmarks_finish hregular] at hadd
  rw [hadd, landmarks, landmarks, hframes, hverbatim]
  simp

theorem landmarks_closeVerbatim {v : Verbatim} (hverbatim : b.verbatim = some v) (text : String)
    (trimNext : Bool) :
    landmarks { b.add (.raw v.tag text) with verbatim := none, trimNext } = b.landmarks := by
  have hadd := landmarks_add (b := { b with verbatim := none }) rfl (.raw v.tag text)
  rw [Node.landmarks] at hadd
  calc landmarks { b.add (.raw v.tag text) with verbatim := none, trimNext }
      = ({ b with verbatim := none }.add (.raw v.tag text)).landmarks := by
        obtain ⟨outer, frames, verbatim, trimNext⟩ := b
        cases frames <;> rfl
    _ = landmarks { b with verbatim := none } ++ [.tag v.tag none] := hadd
    _ = b.landmarks := by simp [landmarks, hverbatim]

/-- A block in which a part is started is met as it was. -/
theorem landmarks_startPart {f : Frame} {rest : List Frame} (hframes : b.frames = f :: rest)
    (guard : Guard) : landmarks { b with frames := f.startPart guard :: rest } = b.landmarks := by
  rw [landmarks, landmarks, hframes]
  simp [Frame.landmarks_startPart]

/-! ### Parts of open blocks -/

/-- All open blocks have the parts that they may have. -/
def Regular (b : Builder) : Prop := ∀ f ∈ b.frames, f.Regular

/-- The parts of a block are what its nodes are kept in. -/
theorem Regular.setCurrent (h : b.Regular) (nodes : List Node) : (b.setCurrent nodes).Regular := by
  obtain ⟨outer, frames, verbatim, trimNext⟩ := b
  cases frames with
  | nil => exact h
  | cons f rest =>
    obtain ⟨hf, hrest⟩ := List.forall_mem_cons.mp h
    exact List.forall_mem_cons.mpr ⟨hf, hrest⟩

theorem Regular.applyTrims (h : b.Regular) (s : Segment) : (b.applyTrims s).Regular := by
  unfold Builder.applyTrims
  dsimp only
  split
  · exact h.setCurrent _
  · exact h

/-- **Step lemma.** Open blocks keep to the parts that they may have. -/
theorem Takes.regular (htakes : Takes options b p b') (h : b.Regular) : b'.Regular := by
  have htrimmed := h.applyTrims p.segment
  cases htakes with
  | verbatim v _ =>
    unfold takeVerbatim
    split
    · split
      · exact h.setCurrent _
      · exact h
    · exact h
  | text => exact h.setCurrent _
  | output | node => exact htrimmed.setCurrent _
  | opens _ htag _ => exact List.forall_mem_cons.mpr ⟨regular_opened htag, htrimmed⟩
  | raw => exact htrimmed
  | @ends _ _ f rest _ _ hframes _ =>
    unfold Regular at htrimmed
    rw [hframes, List.forall_mem_cons] at htrimmed
    have hrest : Regular { b.applyTrims p.segment with frames := rest } := htrimmed.2
    exact hrest.setCurrent _
  | starts _ htag hframes hread =>
    unfold Regular at htrimmed
    rw [hframes, List.forall_mem_cons] at htrimmed
    exact List.forall_mem_cons.mpr
      ⟨Frame.regular_startPart htrimmed.1 (readsPart_of_readPart htag hread), htrimmed.2⟩
  | skipped => exact htrimmed

end Builder

/-! ## Where tags and outputs stand -/

/-- The segment ends a verbatim section of this name. -/
def Segment.Placed.EndsVerbatim (p : Segment.Placed) (block : String) : Prop :=
  ∃ front name, Segment.lastTag? p.segment.chars = some (front, name) ∧
    String.ofList name = Complaint.delimiter block

open Segment (lineBreaks)

/-- Of these segments, which follow `before`, the tags and outputs are these. Each has the name and the
markup of its segment, and the line that the line breaks in front of it give. Nothing stands in a text, in
a tag that belongs to a block, or in a verbatim section, whose name is given while one is open. -/
inductive Stands (options : ParseOptions) :
    List Segment.Placed → Option String → List Segment.Placed → List Landmark → Prop
  | done (before : List Segment.Placed) : Stands options before none [] []
  | text {before later : List Segment.Placed} {p : Segment.Placed} {marks : List Landmark}
    (hkind : p.segment.kind = .text) (hlater : Stands options (before ++ [p]) none later marks) :
    Stands options before none (p :: later) marks
  | part {before later : List Segment.Placed} {p : Segment.Placed} {marks : List Landmark} {tag : Tag}
    {markup : List Char} (htag : p.IsBare options tag markup)
    (hlater : Stands options (before ++ [p]) none later marks) :
    Stands options before none (p :: later) marks
  | output {before later : List Segment.Placed} {p : Segment.Placed} {marks : List Landmark}
    {markup : List Char} {o : Output} (houtput : p.IsOutput markup)
    (hmarkup : o.markup = String.ofList markup) (hline : o.line = some (1 + lineBreaks before))
    (hlater : Stands options (before ++ [p]) none later marks) :
    Stands options before none (p :: later) (.output o :: marks)
  | tag {before later : List Segment.Placed} {p : Segment.Placed} {marks : List Landmark} {tag : Tag}
    {reading : TagReading} {source : Option Output} (htag : p.IsRegistered options tag reading)
    (hreading : reading ≠ .verbatim) (hline : tag.line = some (1 + lineBreaks before))
    (hsource : ∀ o ∈ source, o.line = some (1 + lineBreaks before))
    (hlater : Stands options (before ++ [p]) none later marks) :
    Stands options before none (p :: later) (.tag tag source :: marks)
  | raw {before later : List Segment.Placed} {p : Segment.Placed} {marks : List Landmark} {tag : Tag}
    (htag : p.IsRegistered options tag .verbatim) (hline : tag.line = some (1 + lineBreaks before))
    (hlater : Stands options (before ++ [p]) (some tag.name) later marks) :
    Stands options before none (p :: later) (.tag tag none :: marks)
  | kept {before later : List Segment.Placed} {p : Segment.Placed} {marks : List Landmark}
    {block : String} (hinside : ¬ p.EndsVerbatim block)
    (hlater : Stands options (before ++ [p]) (some block) later marks) :
    Stands options before (some block) (p :: later) marks
  | ends {before later : List Segment.Placed} {p : Segment.Placed} {marks : List Landmark}
    {block : String} (hend : p.EndsVerbatim block)
    (hlater : Stands options (before ++ [p]) none later marks) :
    Stands options before (some block) (p :: later) marks

namespace Builder

variable {options : ParseOptions} {b b' : Builder} {p : Segment.Placed}

/-- What a tag that is a node by itself is met as. -/
theorem exists_landmark_of_node {tag : Tag} {node : Node}
    (htag : p.IsRegistered options tag (.node node)) :
    ∃ source, node.landmarks = [.tag tag source] ∧ ∀ o ∈ source, o.line = p.line := by
  obtain ⟨kind, -, hreads⟩ := readsAs_of_isRegistered htag
  cases hreads with
  | assign target source hline _ =>
    refine ⟨some source, rfl, ?_⟩
    rintro _ ⟨⟩
    rw [hline, htag.line]
  | leave | skip | cycle | shout | scopeDepth | plain => exact ⟨none, rfl, nofun⟩

/-- The verbatim section that is open, by its name. -/
def verbatimName (b : Builder) : Option String := b.verbatim.map (·.tag.name)

/-- Inside a verbatim section nothing is met, and the section is left where it ends. -/
theorem stands_takeVerbatim {before later : List Segment.Placed} {marks : List Landmark} {v : Verbatim}
    (hverbatim : b.verbatim = some v)
    (hlater : Stands options (before ++ [p]) (b.takeVerbatim v p.segment).verbatimName later marks) :
    Stands options before b.verbatimName (p :: later) marks ∧
      (b.takeVerbatim v p.segment).landmarks = b.landmarks := by
  have hname : b.verbatimName = some v.tag.name := by
    rw [verbatimName, hverbatim]
    rfl
  have hkept (pieces : List (List Char)) :
      landmarks { b with verbatim := some { v with pieces } } = b.landmarks := by
    rw [landmarks, landmarks, hverbatim]
    rfl
  rw [hname]
  unfold takeVerbatim at hlater ⊢
  split at hlater
  · next front name hlast =>
    dsimp only at hlater ⊢
    split at hlater
    · next hend =>
      rw [if_pos hend]
      exact ⟨.ends ⟨front, name, hlast, beq_iff_eq.mp hend⟩ hlater, landmarks_closeVerbatim hverbatim ..⟩
    · next hend =>
      rw [if_neg hend]
      refine ⟨.kept (fun ⟨front', name', hlast', hend'⟩ => hend ?_) hlater, hkept _⟩
      rw [hlast] at hlast'
      cases hlast'
      exact beq_iff_eq.mpr hend'
  · next hlast =>
    refine ⟨.kept (fun ⟨front, name, hlast', _⟩ => ?_) hlater, hkept _⟩
    rw [hlast] at hlast'
    cases hlast'

/-- **Step lemma.** What is met when a segment is taken stands in it, in front of what stands in those
behind it. -/
theorem Takes.stands {before later : List Segment.Placed} {marks : List Landmark}
    (htakes : Takes options b p b') (hregular : b.Regular)
    (hline : p.line = some (1 + lineBreaks before))
    (hlater : Stands options (before ++ [p]) b'.verbatimName later marks) :
    ∃ more, Stands options before b.verbatimName (p :: later) (more ++ marks) ∧
      b'.landmarks = b.landmarks ++ more := by
  have houtside (hverbatim : b.verbatim = none) : b.verbatimName = none := by
    rw [verbatimName, hverbatim]
    rfl
  have hnext (hverbatim : b'.verbatim = none) : Stands options (before ++ [p]) none later marks := by
    rw [verbatimName, hverbatim] at hlater
    exact hlater
  -- a part of a block is no landmark, and the others are the nodes that they are read as
  cases htakes with
  | verbatim v hverbatim =>
    obtain ⟨hstands, hmarks⟩ := stands_takeVerbatim hverbatim hlater
    exact ⟨[], hstands, hmarks.trans (List.append_nil _).symm⟩
  | text hverbatim hkind =>
    refine ⟨[], ?_, ?_⟩
    · rw [houtside hverbatim]
      exact .text hkind (hnext (by simpa using hverbatim))
    · exact (landmarks_add hverbatim _).trans (by rw [Node.landmarks])
  | @output markup o hverbatim houtput hread =>
    obtain ⟨hmarkup, hsame⟩ := readOutput_eq_ok hread
    refine ⟨[.output o], ?_, ?_⟩
    · rw [houtside hverbatim]
      exact .output houtput hmarkup (hsame.trans hline) (hnext (by simpa using hverbatim))
    · rw [landmarks_add (by simpa using hverbatim), landmarks_applyTrims hverbatim, Node.landmarks]
  | @node tag node hverbatim htag =>
    obtain ⟨source, hmarks, hsource⟩ := exists_landmark_of_node htag
    refine ⟨[.tag tag source], ?_, ?_⟩
    · rw [houtside hverbatim]
      exact .tag htag nofun (htag.line.trans hline) (fun o ho => (hsource o ho).trans hline)
        (hnext (by simpa using hverbatim))
    · rw [landmarks_add (by simpa using hverbatim), landmarks_applyTrims hverbatim, hmarks]
  | @opens tag opening guard hverbatim htag _ =>
    refine ⟨[.tag tag none], ?_, ?_⟩
    · rw [houtside hverbatim]
      exact .tag htag nofun (htag.line.trans hline) nofun (hnext (by simpa using hverbatim))
    · rw [landmarks_openFrame (by simpa using hverbatim), landmarks_applyTrims hverbatim]
  | @raw tag hverbatim htag =>
    refine ⟨[.tag tag none], ?_, ?_⟩
    · rw [houtside hverbatim]
      exact .raw htag (htag.line.trans hline) hlater
    · rw [landmarks_openVerbatim (by simpa using hverbatim), landmarks_applyTrims hverbatim]
  | @ends tag markup f rest hverbatim htag hframes _ =>
    have htrimmed := hregular.applyTrims p.segment
    unfold Regular at htrimmed
    rw [hframes, List.forall_mem_cons] at htrimmed
    refine ⟨[], ?_, ?_⟩
    · rw [houtside hverbatim]
      exact .part htag (hnext (by simpa using hverbatim))
    · rw [landmarks_closeFrame (by simpa using hverbatim) hframes htrimmed.1,
        landmarks_applyTrims hverbatim, List.append_nil]
  | starts hverbatim htag hframes _ =>
    refine ⟨[], ?_, ?_⟩
    · rw [houtside hverbatim]
      exact .part htag (hnext (by simpa using hverbatim))
    · rw [landmarks_startPart hframes, landmarks_applyTrims hverbatim, List.append_nil]
  | skipped hverbatim htag _ _ =>
    refine ⟨[], ?_, ?_⟩
    · rw [houtside hverbatim]
      exact .part htag (hnext (by simpa using hverbatim))
    · rw [landmarks_applyTrims hverbatim, List.append_nil]

/-- **What the builder makes of segments stands in them**, when they have the lines that the line breaks
in front of them give. Induction on the segments, each of which stands in front of the others. -/
theorem stands_of_builds (before : List Segment.Placed) {segments : List Segment.Placed} (hregular : b.Regular)
    (hlines : ∀ front p later, segments = front ++ p :: later →
      p.line = some (1 + lineBreaks (before ++ front)))
    (hbuilds : Builds options b segments b') (hverbatim : b'.verbatim = none) :
    ∃ more, Stands options before b.verbatimName segments more ∧ b'.landmarks = b.landmarks ++ more := by
  induction segments generalizing b before with
  | nil =>
    cases builds_nil.mp hbuilds
    refine ⟨[], ?_, (List.append_nil _).symm⟩
    rw [verbatimName, hverbatim]
    exact .done before
  | cons p later ih =>
    obtain ⟨next, htakes, hrest⟩ := builds_cons.mp hbuilds
    obtain ⟨others, hstands, hothers⟩ := ih (before ++ [p]) (htakes.regular hregular)
      (fun front q back hsplit => by
        rw [hlines (p :: front) q back (congrArg (p :: ·) hsplit), List.append_cons]) hrest
    have hline := hlines [] p later rfl
    rw [List.append_nil] at hline
    obtain ⟨more, hmore, hlandmarks⟩ := htakes.stands hregular hline hstands
    exact ⟨more ++ others, hmore, by rw [hothers, hlandmarks, List.append_assoc]⟩

end Builder

end Stencil
