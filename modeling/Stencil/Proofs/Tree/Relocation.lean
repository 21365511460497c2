import Stencil.Proofs.Tree.Acceptance

/-!
# Templates behind something else

A source that is read behind nodes which end in no text gives the same nodes as by itself, on other
lines: how a segment is read depends neither on its line nor on what stands in front of it.

* `Node.relocate f node`: the node with all its lines moved.
* `Builder.behind f before b`: what has been built so far, with its lines moved, behind the nodes `before`.
* `Builds.behind`: every step of the builder commutes with this.
-/

namespace Stencil

open Parsing

/-! ## Trees on other lines -/

/-- The tag on another line. -/
def Tag.relocate (f : Nat → Nat) (tag : Tag) : Tag := { tag with line := tag.line.map f }

/-- The output on another line. -/
def Output.relocate (f : Nat → Nat) (o : Output) : Output := { o with line := o.line.map f }

namespace Node

mutual

/-- The node with all its lines moved. -/
def relocate (f : Nat → Nat) (node : Node) : Node :=
  match node with
  | .text s => .text s
  | .output o => .output (o.relocate f)
  | .assign tag target source => .assign (tag.relocate f) target (source.relocate f)
  | .interrupt tag signal => .interrupt (tag.relocate f) signal
  | .cycle tag group values => .cycle (tag.relocate f) group values
  | .raw tag s => .raw (tag.relocate f) s
  | .leaf tag kind => .leaf (tag.relocate f) kind
  | .choose tag negated branches => .choose (tag.relocate f) negated (relocateBranches f branches)
  | .case tag subject preamble clauses =>
    .case (tag.relocate f) subject (relocateBody f preamble) (relocateClauses f clauses)
  | .loop tag header body otherwise =>
    .loop (tag.relocate f) header (relocateBody f body) (match otherwise with
      | some nodes => some (relocateBody f nodes)
      | none => none)
  | .table tag header body => .table (tag.relocate f) header (relocateBody f body)
  | .block tag kind body => .block (tag.relocate f) kind (relocateBody f body)
termination_by structural node

/-- The body with all its lines moved. -/
def relocateBody (f : Nat → Nat) (nodes : List Node) : List Node :=
  match nodes with
  | [] => []
  | node :: rest => relocate f node :: relocateBody f rest
termination_by structural nodes

/-- The bodies behind conditions with all their lines moved. -/
def relocateBranches (f : Nat → Nat) (branches : List (Option Condition × List Node)) :
    List (Option Condition × List Node) :=
  match branches with
  | [] => []
  | (guard, body) :: rest => (guard, relocateBody f body) :: relocateBranches f rest
termination_by structural branches

/-- The bodies behind alternatives with all their lines moved. -/
def relocateClauses (f : Nat → Nat) (clauses : List (Option (List Expr) × List Node)) :
    List (Option (List Expr) × List Node) :=
  match clauses with
  | [] => []
  | (values, body) :: rest => (values, relocateBody f body) :: relocateClauses f rest
termination_by structural clauses

end

variable {f : Nat → Nat}

theorem relocateBody_eq_map (nodes : List Node) : relocateBody f nodes = nodes.map (relocate f) := by
  induction nodes with
  | nil => rw [relocateBody, List.map_nil]
  | cons node rest ih => rw [relocateBody, ih, List.map_cons]

theorem relocateBranches_eq_map (branches : List (Option Condition × List Node)) :
    relocateBranches f branches = branches.map fun branch => (branch.1, relocateBody f branch.2) := by
  induction branches with
  | nil => rw [relocateBranches, List.map_nil]
  | cons branch rest ih => rw [relocateBranches, ih, List.map_cons]

theorem relocateClauses_eq_map (clauses : List (Option (List Expr) × List Node)) :
    relocateClauses f clauses = clauses.map fun clause => (clause.1, relocateBody f clause.2) := by
  induction clauses with
  | nil => rw [relocateClauses, List.map_nil]
  | cons clause rest ih => rw [relocateClauses, ih, List.map_cons]

theorem relocate_loop (tag : Tag) (header : LoopHeader) (body : List Node)
    (otherwise : Option (List Node)) :
    (Node.loop tag header body otherwise).relocate f =
      .loop (tag.relocate f) header (relocateBody f body) (otherwise.map (relocateBody f)) := by
  cases otherwise <;> rfl

end Node

open Node (relocateBody)

/-! ## What is built on other lines -/

namespace Frame

/-- The open block with all its lines moved. -/
def relocate (f : Nat → Nat) (frame : Frame) : Frame :=
  { frame with
    tag := frame.tag.relocate f
    parts := frame.parts.map fun part => (part.1, relocateBody f part.2)
    nodes := relocateBody f frame.nodes }

variable {f : Nat → Nat} {frame : Frame}

theorem allParts_relocate :
    (frame.relocate f).allParts = frame.allParts.map fun part => (part.1, relocateBody f part.2) := by
  simp only [allParts, relocate, Node.relocateBody_eq_map, List.map_reverse, List.map_cons]

theorem startPart_relocate (guard : Guard) :
    (frame.relocate f).startPart guard = (frame.startPart guard).relocate f := by
  simp only [startPart, relocate, Node.relocateBody_eq_map, List.map_reverse, List.map_cons, List.map_nil]

theorem finish_relocate : (frame.relocate f).finish = frame.finish.relocate f := by
  -- whatever a part stands behind, only its body has lines
  have hbranch (part : Guard × Body) :
      branch (part.1, relocateBody f part.2) = ((branch part).1, relocateBody f (branch part).2) := by
    obtain ⟨guard, body⟩ := part
    cases guard <;> rfl
  have hclause (part : Guard × Body) :
      clause (part.1, relocateBody f part.2) = ((clause part).1, relocateBody f (clause part).2) := by
    obtain ⟨guard, body⟩ := part
    cases guard <;> rfl
  have hfirst : ((frame.relocate f).allParts.head?.map (·.2)).getD [] =
      relocateBody f ((frame.allParts.head?.map (·.2)).getD []) := by
    rw [allParts_relocate, List.head?_map]
    cases frame.allParts.head? with
    | none => rfl
    | some part => rfl
  unfold finish
  dsimp only
  rw [hfirst, allParts_relocate, show (frame.relocate f).opening = frame.opening from rfl,
    show (frame.relocate f).tag = frame.tag.relocate f from rfl]
  cases frame.opening with
  | choose negated =>
    simp only [Node.relocate, Node.relocateBranches_eq_map, List.map_map, Function.comp_def, hbranch]
  | case subject =>
    simp only [Node.relocate, Node.relocateClauses_eq_map, List.map_map, Function.comp_def, hclause,
      List.map_tail]
  | loop header =>
    rw [Node.relocate_loop, ← List.map_tail, List.head?_map, Option.map_map, Option.map_map]
    rfl
  | table header => rw [Node.relocate]
  | block kind => rw [Node.relocate]

end Frame

namespace Builder

/-- What has been built so far, with all its lines moved, behind nodes that are done. -/
def behind (f : Nat → Nat) (before : List Node) (b : Builder) : Builder where
  nodes := relocateBody f b.nodes ++ before
  frames := b.frames.map (Frame.relocate f)
  verbatim := b.verbatim.map fun v => { v with tag := v.tag.relocate f }
  trimNext := b.trimNext

variable {f : Nat → Nat} {before : List Node} {b b' : Builder}

theorem add_behind (b : Builder) (node : Node) :
    (b.add node).behind f before = (b.behind f before).add (node.relocate f) := by
  obtain ⟨outer, frames, verbatim, trimNext⟩ := b
  cases frames with
  | nil =>
    simp only [add, current, setCurrent, behind, Node.relocateBody_eq_map, List.map_cons, List.map_nil,
      List.cons_append]
  | cons frame rest =>
    simp only [add, current, setCurrent, behind, Frame.relocate, Node.relocateBody_eq_map, List.map_cons]

theorem addText_behind (b : Builder) (s : Segment) :
    (b.addText s).behind f before = (b.behind f before).addText s := by
  have hadd : (b.add (.text (if b.trimNext then Text.trimLeftText s.text else s.text))).behind f before =
      (b.behind f before).add (.text (if b.trimNext then Text.trimLeftText s.text else s.text)) :=
    add_behind b _
  unfold addText
  dsimp only
  rw [show (b.behind f before).trimNext = b.trimNext from rfl, ← hadd]
  rfl

/-- What stands in front is not trimmed, as it ends in no text. -/
theorem trimLast_relocateBody (hbefore : ∀ s, before.head? ≠ some (.text s)) (nodes : List Node) :
    trimLast (relocateBody f nodes ++ before) = relocateBody f (trimLast nodes) ++ before := by
  rw [Node.relocateBody_eq_map, Node.relocateBody_eq_map]
  cases nodes with
  | cons node rest => cases node <;> rfl
  | nil =>
    cases before with
    | nil => rfl
    | cons last before =>
      cases last with
      | text s => exact absurd rfl (hbefore s)
      | _ => rfl

theorem applyTrims_behind (hbefore : ∀ s, before.head? ≠ some (.text s)) (b : Builder) (s : Segment) :
    (b.applyTrims s).behind f before = (b.behind f before).applyTrims s := by
  unfold applyTrims
  dsimp only
  split
  · obtain ⟨outer, frames, verbatim, trimNext⟩ := b
    cases frames with
    | nil => simp only [setCurrent, current, behind, List.map_nil, trimLast_relocateBody hbefore]
    | cons frame rest =>
      have hlast : trimLast (relocateBody f frame.nodes ++ []) = relocateBody f (trimLast frame.nodes) ++ [] :=
        trimLast_relocateBody (by rintro s ⟨⟩) frame.nodes
      rw [List.append_nil, List.append_nil] at hlast
      simp only [setCurrent, current, behind, Frame.relocate, List.map_cons, hlast]
  · rfl

theorem takeVerbatim_behind (b : Builder) (v : Verbatim) (s : Segment) :
    (b.takeVerbatim v s).behind f before =
      (b.behind f before).takeVerbatim { v with tag := v.tag.relocate f } s := by
  unfold takeVerbatim
  split
  · next front name hlast =>
    dsimp only
    rw [show (Tag.relocate f v.tag).name = v.tag.name from rfl]
    split
    · have hadd : (b.add (.raw v.tag (String.ofList (front :: v.pieces).reverse.flatten))).behind f before =
          (b.behind f before).add
            (.raw (v.tag.relocate f) (String.ofList (front :: v.pieces).reverse.flatten)) := add_behind b _
      rw [← hadd]
      rfl
    · rfl
  · rfl

end Builder

/-! ## What is read on other lines -/

/-- The segment on another line. -/
def Segment.Placed.relocate (f : Nat → Nat) (p : Segment.Placed) : Segment.Placed :=
  { p with line := p.line.map f, next := p.next.map f }

/-- What a registered tag is on another line. -/
def TagReading.relocate (f : Nat → Nat) : TagReading → TagReading
  | .node m => .node (m.relocate f)
  | .opens opening guard => .opens opening guard
  | .verbatim => .verbatim

section

variable {f : Nat → Nat} {options : ParseOptions} {markup : List Char}

theorem readOutput_relocate {line : Option Nat} {o : Output}
    (hread : (Builder.readOutput options line markup).outcome = .ok o) :
    (Builder.readOutput options (line.map f) markup).outcome = .ok (o.relocate f) := by
  obtain ⟨pipeline, hpipeline, ho⟩ := (outcome_bind_eq_ok fun _ => steady_pure _).mp hread
  cases ho
  refine (outcome_bind_eq_ok fun _ => steady_pure _).mpr ⟨pipeline, ?_, rfl⟩
  exact outcome_select_eq_ok_iff.mpr (outcome_select_eq_ok_iff.mp hpipeline)

theorem readCondition_relocate {line : Option Nat} {tag : String} {condition : Condition}
    (hread : (Builder.readCondition options line tag markup).outcome = .ok condition) :
    (Builder.readCondition options (line.map f) tag markup).outcome = .ok condition :=
  outcome_select_eq_ok_iff.mpr (outcome_select_eq_ok_iff.mp hread)

theorem readTag_relocate {kind : TagKind} {tag : Tag} {reading : TagReading}
    (hread : (Builder.readTag options kind tag markup).outcome = .ok reading) :
    (Builder.readTag options kind (tag.relocate f) markup).outcome = .ok (reading.relocate f) := by
  cases kind with
  | assign =>
    unfold Builder.readTag at hread ⊢
    dsimp only at hread ⊢
    split at hread
    · cases hread
    · next target source hfound =>
      obtain ⟨o, ho, hreading⟩ := (outcome_bind_eq_ok fun _ => steady_pure _).mp hread
      cases hreading
      exact (outcome_bind_eq_ok fun _ => steady_pure _).mpr
        ⟨o.relocate f, readOutput_relocate ho, by rw [TagReading.relocate, Node.relocate]; rfl⟩
  | choose | negated =>
    obtain ⟨condition, hcondition, hreading⟩ := (outcome_bind_eq_ok fun _ => steady_pure _).mp hread
    cases hreading
    exact (outcome_bind_eq_ok fun _ => steady_pure _).mpr
      ⟨condition, readCondition_relocate hcondition, rfl⟩
  | loop =>
    obtain ⟨header, hheader, hreading⟩ := (outcome_bind_eq_ok fun _ => steady_pure _).mp hread
    cases hreading
    refine (outcome_bind_eq_ok fun _ => steady_pure _).mpr ⟨header, ?_, rfl⟩
    exact outcome_select_eq_ok_iff.mpr (outcome_select_eq_ok_iff.mp hheader)
  | cycle =>
    obtain ⟨⟨group, values⟩, hcycle, hreading⟩ := (outcome_bind_eq_ok fun _ => steady_pure _).mp hread
    cases hreading
    exact (outcome_bind_eq_ok fun _ => steady_pure _).mpr
      ⟨(group, values), hcycle, by rw [TagReading.relocate, Node.relocate]; rfl⟩
  | leave | skip | shout | scopeDepth | plain =>
    cases hread
    rw [TagReading.relocate, Node.relocate]
    rfl
  -- the other tags open something, and their line is not looked at
  | _ =>
    cases Builder.readsAs_of_readTag hread
    exact hread

theorem readPart_relocate {frame : Frame} {name : String} {line : Option Nat} {reading : PartReading}
    (hread : (Builder.readPart options frame name line markup).outcome = .ok reading) :
    (Builder.readPart options (frame.relocate f) name (line.map f) markup).outcome = .ok reading :=
  Builder.readPart_of_readCondition rfl rfl rfl (fun _ _ => readCondition_relocate) hread

end

/-! ## Segments taken on other lines -/

section

variable {options : ParseOptions} {p : Segment.Placed} {tag : Tag}

theorem Segment.Placed.IsRegistered.relocate (f : Nat → Nat) {reading : TagReading}
    (h : p.IsRegistered options tag reading) :
    (p.relocate f).IsRegistered options (tag.relocate f) (reading.relocate f) := by
  obtain ⟨markup, kind, ⟨hkind, name, htag, rfl⟩, hget, hread⟩ := h
  exact ⟨markup, kind, ⟨hkind, name, htag, rfl⟩, hget, readTag_relocate hread⟩

theorem Segment.Placed.IsBare.relocate (f : Nat → Nat) {markup : List Char}
    (h : p.IsBare options tag markup) :
    (p.relocate f).IsBare options (tag.relocate f) markup := by
  obtain ⟨⟨hkind, name, htag, rfl⟩, hget⟩ := h
  exact ⟨⟨hkind, name, htag, rfl⟩, hget⟩

end

namespace Builder

section

variable {f : Nat → Nat} {before : List Node} (hbefore : ∀ s, before.head? ≠ some (.text s))
  {options : ParseOptions} {b b' : Builder}
include hbefore

/-- **A segment does the same on another line**, behind nodes that end in no text. -/
theorem Takes.behind {p : Segment.Placed} (htakes : Takes options b p b') :
    Takes options (b.behind f before) (p.relocate f) (b'.behind f before) := by
  have hnone (h : b.verbatim = none) : (b.behind f before).verbatim = none := by
    rw [Builder.behind, h]
    rfl
  have htrims : (b.applyTrims p.segment).behind f before =
      (b.behind f before).applyTrims (p.relocate f).segment := applyTrims_behind hbefore b p.segment
  have hframes {frame : Frame} {rest : List Frame} (h : (b.applyTrims p.segment).frames = frame :: rest) :
      ((b.behind f before).applyTrims (p.relocate f).segment).frames =
        frame.relocate f :: rest.map (Frame.relocate f) := by
    rw [← htrims, Builder.behind, h]
    rfl
  -- the kind of a segment, and what its markup is read as, have nothing to do with its line
  cases htakes with
  | verbatim v hverbatim =>
    rw [takeVerbatim_behind]
    exact .verbatim { v with tag := v.tag.relocate f } (by rw [Builder.behind, hverbatim]; rfl)
  | text hverbatim hkind =>
    rw [addText_behind]
    exact .text (hnone hverbatim) hkind
  | output hverbatim houtput hread =>
    rw [add_behind, htrims, Node.relocate]
    exact .output (hnone hverbatim) houtput (readOutput_relocate hread)
  | node hverbatim htag =>
    rw [add_behind, htrims]
    exact .node (hnone hverbatim) (htag.relocate f)
  | @opens tag opening guard hverbatim htag hdepth =>
    have hopens := Takes.opens (hnone hverbatim) (htag.relocate f)
      (by rwa [Builder.behind, List.length_map])
    rw [← htrims] at hopens
    exact hopens
  | raw hverbatim htag =>
    have hraw := Takes.raw (hnone hverbatim) (htag.relocate f)
    rw [← htrims] at hraw
    exact hraw
  | ends hverbatim htag hframe hread =>
    have hends := Takes.ends (hnone hverbatim) (htag.relocate f) (hframes hframe) (readPart_relocate hread)
    rw [add_behind, ← Frame.finish_relocate]
    rw [← htrims] at hends
    exact hends
  | starts hverbatim htag hframe hread =>
    have hstarts := Takes.starts (hnone hverbatim) (htag.relocate f) (hframes hframe)
      (readPart_relocate hread)
    rw [Frame.startPart_relocate, ← htrims] at hstarts
    exact hstarts
  | skipped hverbatim htag hframe hread =>
    rw [htrims]
    exact .skipped (hnone hverbatim) (htag.relocate f) (hframes hframe) (readPart_relocate hread)

/-- **Segments one after another do the same on other lines**, behind nodes that end in no text. -/
theorem Builds.behind {segments : List Segment.Placed} (hbuilds : Builds options b segments b') :
    Builds options (b.behind f before) (segments.map (Segment.Placed.relocate f)) (b'.behind f before) := by
  induction segments generalizing b with
  | nil =>
    cases builds_nil.mp hbuilds
    exact builds_nil.mpr rfl
  | cons p rest ih =>
    obtain ⟨next, htakes, hrest⟩ := builds_cons.mp hbuilds
    exact builds_cons.mpr ⟨next.behind f before, htakes.behind hbefore, ih hrest⟩

end

end Builder

/-- Segments that are placed some lines further down. -/
theorem Segment.place_relocate (lines : Nat) (line : Option Nat) (segments : List Segment) :
    Segment.place (line.map (· + lines)) segments =
      (Segment.place line segments).map (Segment.Placed.relocate (· + lines)) := by
  induction segments generalizing line with
  | nil => rfl
  | cons segment rest ih =>
    have hnext : (line.map (· + lines)).map (· + segment.chars.count '\n') =
        (line.map (· + segment.chars.count '\n')).map (· + lines) := by
      cases line with
      | none => rfl
      | some n => exact congrArg some (Nat.add_right_comm ..)
    rw [Segment.place, Segment.place, hnext, ih, List.map_cons]
    rfl

end Stencil
