import Stencil.Proofs.Markup.Segmentation
import Stencil.Proofs.Tree.Acceptance

/-!
# Blanks around tags and outputs

The texts of a tree are the texts of its source in their order, each without the blanks in front of it
if the segment in front ends with a hyphen, and without those at its end if the segment behind starts
with one (`texts_of_parse`). It makes no difference which bodies the segments belong to: while the tree
is built, the text that a hyphen may still shorten is always the last node of the innermost body.
-/

namespace Stencil

/-! ## The texts of a tree -/

namespace Node

mutual

/-- The texts in a node, in the order of the source. A verbatim section is no text. -/
def texts (node : Node) : List String :=
  match node with
  | .text s => [s]
  | .output _ | .assign .. | .interrupt .. | .cycle .. | .raw .. | .leaf .. => []
  | .choose _ _ branches => textsOfBranches branches
  | .case _ _ preamble clauses => textsOfBody preamble ++ textsOfClauses clauses
  | .loop _ _ body otherwise =>
    textsOfBody body ++ (match otherwise with
      | some nodes => textsOfBody nodes
      | none => [])
  | .table _ _ body | .block _ _ body => textsOfBody body
termination_by structural node

/-- The texts in a body. -/
def textsOfBody (nodes : List Node) : List String :=
  match nodes with
  | [] => []
  | node :: rest => texts node ++ textsOfBody rest
termination_by structural nodes

/-- The texts in the bodies behind conditions. -/
def textsOfBranches (branches : List (Option Condition × List Node)) : List String :=
  match branches with
  | [] => []
  | (_, body) :: rest => textsOfBody body ++ textsOfBranches rest
termination_by structural branches

/-- The texts in the bodies behind alternatives. -/
def textsOfClauses (clauses : List (Option (List Expr) × List Node)) : List String :=
  match clauses with
  | [] => []
  | (_, body) :: rest => textsOfBody body ++ textsOfClauses rest
termination_by structural clauses

end

theorem textsOfBody_append (xs ys : List Node) :
    textsOfBody (xs ++ ys) = textsOfBody xs ++ textsOfBody ys := by
  induction xs with
  | nil => rw [textsOfBody, List.nil_append, List.nil_append]
  | cons x xs ih => rw [List.cons_append, textsOfBody, textsOfBody, ih, List.append_assoc]

/-- The texts of a body that is kept last node first. -/
theorem textsOfBody_reverse_cons (node : Node) (nodes : List Node) :
    textsOfBody (node :: nodes).reverse = textsOfBody nodes.reverse ++ node.texts := by
  rw [List.reverse_cons, textsOfBody_append]
  simp only [textsOfBody, List.append_nil]

end Node

open Node (textsOfBody textsOfBranches textsOfClauses)

/-! ## Texts between their neighbours -/

namespace Segment

/-- The text of a segment, without the blanks at an end whose neighbour has a hyphen on that side. -/
def spaced (before after : Option Segment) (s : Segment) : String :=
  let text := if before.any trimsRight then Text.trimLeftText s.text else s.text
  if after.any trimsLeft then Text.trimRightText text else text

/-- The texts among segments that stand between `before` and `after`. -/
def spacedTexts (before after : Option Segment) : List Segment → List String
  | [] => []
  | s :: rest =>
    (if s.kind = .text then [s.spaced before (rest.head?.or after)] else []) ++
      spacedTexts (some s) after rest

theorem spacedTexts_append (before after : Option Segment) (xs ys : List Segment) :
    spacedTexts before after (xs ++ ys) =
      spacedTexts before (ys.head?.or after) xs ++ spacedTexts (xs.getLast?.or before) after ys := by
  induction xs generalizing before with
  | nil => rfl
  | cons x xs ih =>
    have hlast : (x :: xs).getLast?.or before = xs.getLast?.or (some x) := by
      rw [List.getLast?_cons]
      cases xs.getLast? <;> rfl
    rw [List.cons_append, spacedTexts, spacedTexts, ih, hlast, List.head?_append, List.append_assoc,
      Option.or_assoc]

/-- A segment behind others spaces the last of them. -/
theorem spacedTexts_concat (before after : Option Segment) (xs : List Segment) (s : Segment) :
    spacedTexts before after (xs ++ [s]) = spacedTexts before (some s) xs ++
      if s.kind = .text then [s.spaced (xs.getLast?.or before) after] else [] := by
  rw [spacedTexts_append]
  simp [spacedTexts]

/-- What stands behind segments matters by its hyphen only. -/
theorem spacedTexts_congr {after after' : Option Segment} (before : Option Segment)
    (hafter : after.any trimsLeft = after'.any trimsLeft) (segments : List Segment) :
    spacedTexts before after segments = spacedTexts before after' segments := by
  induction segments generalizing before with
  | nil => rfl
  | cons s rest ih =>
    have hspaced : s.spaced before (rest.head?.or after) = s.spaced before (rest.head?.or after') := by
      cases rest with
      | nil =>
        unfold spaced
        rw [List.head?_nil, Option.none_or, Option.none_or, hafter]
      | cons next rest => rfl
    rw [spacedTexts, spacedTexts, ih, hspaced]

/-- Behind a segment without a hyphen it is as if nothing stood there. -/
theorem spacedTexts_of_not_trimsLeft (before : Option Segment) {s : Segment}
    (hs : s.trimsLeft = false) (segments : List Segment) :
    spacedTexts before (some s) segments = spacedTexts before none segments :=
  spacedTexts_congr before (by rw [Option.any_some, hs, Option.any_none]) segments

/-- A hyphen takes the blanks off what would be there without it. -/
theorem spaced_of_trimsLeft (before : Option Segment) (s : Segment) {next : Segment}
    (hnext : next.trimsLeft = true) :
    s.spaced before (some next) = Text.trimRightText (s.spaced before none) := by
  simp [spaced, hnext]

/-- A tag or output asks to trim in front if a hyphen follows its opener. -/
theorem trimsLeft_iff {s : Segment} {body : List Char} (hkind : s.kind ≠ .text)
    (hchars : s.chars = s.kind.opener ++ body) : s.trimsLeft = true ↔ ['-'] <+: body := by
  obtain ⟨kind, chars⟩ := s
  cases kind with
  | text => exact absurd rfl hkind
  | tag | output =>
    dsimp only at hchars
    subst hchars
    cases body with
    | nil => simp [trimsLeft, Kind.opener]
    | cons c rest => simp [trimsLeft, Kind.opener, List.cons_prefix_cons, Eq.comm (a := c)]

/-- A tag or output that is closed asks to trim behind if a hyphen that is not part of its opener stands
in front of its closer. -/
theorem trimsRight_iff {s : Segment} {body : List Char} (hkind : s.kind ≠ .text)
    (hchars : s.chars = s.kind.opener ++ body ++ s.kind.closer) :
    s.trimsRight = true ↔ ['-'] <:+ body := by
  obtain ⟨kind, chars⟩ := s
  cases kind with
  | text => exact absurd rfl hkind
  | tag | output =>
    dsimp only at hchars
    subst hchars
    rcases List.eq_nil_or_concat body with rfl | ⟨front, c, rfl⟩
    · simp [trimsRight, Kind.opener, Kind.closer]
    · simp [trimsRight, Kind.opener, Kind.closer, Eq.comm (a := c)]

theorem trimsLeft_of_text {s : Segment} (hkind : s.kind = .text) : s.trimsLeft = false := by
  simp [trimsLeft, hkind]

theorem trimsRight_of_text {s : Segment} (hkind : s.kind = .text) : s.trimsRight = false := by
  simp [trimsRight, hkind]

end Segment

/-! ## The texts of what is open -/

namespace Frame

/-- The texts in an open block. -/
def texts (f : Frame) : List String := f.allParts.flatMap fun part => textsOfBody part.2

theorem textsOfBranches_map_branch (parts : List (Guard × Body)) :
    textsOfBranches (parts.map branch) = parts.flatMap fun part => textsOfBody part.2 := by
  induction parts with
  | nil => rw [List.map_nil, textsOfBranches, List.flatMap_nil]
  | cons part parts ih =>
    obtain ⟨guard, body⟩ := part
    cases guard <;> rw [List.map_cons, branch, textsOfBranches, ih, List.flatMap_cons]

theorem textsOfClauses_map_clause (parts : List (Guard × Body)) :
    textsOfClauses (parts.map clause) = parts.flatMap fun part => textsOfBody part.2 := by
  induction parts with
  | nil => rw [List.map_nil, textsOfClauses, List.flatMap_nil]
  | cons part parts ih =>
    obtain ⟨guard, body⟩ := part
    cases guard <;> rw [List.map_cons, clause, textsOfClauses, ih, List.flatMap_cons]

/-- Closing a block loses no text. -/
theorem texts_finish {f : Frame} (hregular : f.Regular) : f.finish.texts = f.texts := by
  obtain ⟨tag, opening, parts, guard, nodes⟩ := f
  cases opening with
  | choose negated => exact textsOfBranches_map_branch _
  | case subject =>
    rw [finish, Node.texts, textsOfClauses_map_clause, texts, allParts_eq]
    cases parts.reverse <;> simp
  | loop header =>
    -- a loop has one part, or two
    have hlength : parts.length = _ := hregular
    rw [texts, allParts_eq]
    split at hlength
    · obtain ⟨part, rfl⟩ := List.length_eq_one_iff.mp hlength
      simp [finish, allParts_eq, Node.texts]
    · obtain rfl := List.length_eq_zero_iff.mp hlength
      simp [finish, allParts_eq, Node.texts]
  | table header | block kind =>
    obtain rfl : parts = [] := hregular
    simp [finish, Node.texts, texts, allParts_eq]

/-- The texts of the current part stand behind the others. -/
theorem texts_with_nodes (f : Frame) (nodes : List Node) :
    texts { f with nodes } =
      (f.parts.reverse.flatMap fun part => textsOfBody part.2) ++ textsOfBody nodes.reverse := by
  rw [texts, allParts_eq, List.flatMap_append, List.flatMap_singleton]

theorem finish_ne_text (f : Frame) (s : String) : f.finish ≠ .text s := by
  obtain ⟨tag, opening, parts, guard, nodes⟩ := f
  cases opening <;> exact nofun

theorem texts_startPart (f : Frame) (guard : Guard) : (f.startPart guard).texts = f.texts := by
  rw [texts, allParts_startPart, List.flatMap_append, List.flatMap_singleton, textsOfBody,
    List.append_nil, texts]

end Frame

/-- An open block that has the parts it may have, and is no comment: in a comment, tags are skipped that
stand between texts. -/
structure Frame.Orderly (f : Frame) : Prop where
  regular : f.Regular
  noComment : f.opening ≠ .block .comment

namespace Builder

/-- The texts of what has been built so far. -/
def texts (b : Builder) : List String :=
  textsOfBody b.nodes.reverse ++ b.frames.reverse.flatMap Frame.texts

section

variable (b : Builder)

theorem texts_of_frames {f : Frame} {rest : List Frame} (hframes : b.frames = f :: rest) :
    b.texts = texts { b with frames := rest } ++ f.texts := by
  rw [texts, texts, hframes, List.reverse_cons, List.flatMap_append, List.flatMap_singleton,
    List.append_assoc]

/-- The texts of the innermost body stand behind all others. -/
theorem texts_setCurrent :
    ∃ front, ∀ nodes, (b.setCurrent nodes).texts = front ++ textsOfBody nodes.reverse := by
  obtain ⟨outer, frames, verbatim, trimNext⟩ := b
  cases frames with
  | nil => exact ⟨[], fun nodes => by simp [texts, setCurrent]⟩
  | cons f rest =>
    refine ⟨texts ⟨outer, rest, verbatim, trimNext⟩ ++
      f.parts.reverse.flatMap fun part => textsOfBody part.2, fun nodes => ?_⟩
    rw [setCurrent, texts_of_frames _ rfl, Frame.texts_with_nodes, List.append_assoc]

/-- The texts of the innermost body as it is. -/
theorem exists_texts_eq : ∃ front, b.texts = front ++ textsOfBody b.current.reverse ∧
    ∀ nodes, (b.setCurrent nodes).texts = front ++ textsOfBody nodes.reverse := by
  obtain ⟨front, hfront⟩ := texts_setCurrent b
  refine ⟨front, ?_, hfront⟩
  rw [← hfront, setCurrent_current]

theorem texts_add (node : Node) : (b.add node).texts = b.texts ++ node.texts := by
  obtain ⟨front, hb, hfront⟩ := exists_texts_eq b
  rw [add, hfront, hb, Node.textsOfBody_reverse_cons, List.append_assoc]

theorem current_setCurrent (nodes : List Node) : (b.setCurrent nodes).current = nodes := by
  obtain ⟨outer, frames, verbatim, trimNext⟩ := b
  cases frames <;> rfl

theorem current_add (node : Node) : (b.add node).current = node :: b.current :=
  current_setCurrent b _

theorem trimNext_setCurrent (nodes : List Node) : (b.setCurrent nodes).trimNext = b.trimNext := by
  obtain ⟨outer, frames, verbatim, trimNext⟩ := b
  cases frames <;> rfl

theorem orderly_setCurrent (hframes : ∀ f ∈ b.frames, f.Orderly) (nodes : List Node) :
    ∀ f ∈ (b.setCurrent nodes).frames, f.Orderly := by
  obtain ⟨outer, frames, verbatim, trimNext⟩ := b
  cases frames with
  | nil => exact hframes
  | cons f rest =>
    obtain ⟨⟨hregular, hcomment⟩, hrest⟩ := List.forall_mem_cons.mp hframes
    exact List.forall_mem_cons.mpr ⟨⟨hregular, hcomment⟩, hrest⟩

theorem orderly_applyTrims (hframes : ∀ f ∈ b.frames, f.Orderly) (s : Segment) :
    ∀ f ∈ (b.applyTrims s).frames, f.Orderly := by
  unfold applyTrims
  dsimp only
  split
  · exact orderly_setCurrent b hframes _
  · exact hframes

end

/-! ## Texts while a tree is built -/

/-- Whether a body ends with a text, given its nodes last first. -/
def EndsWithText (nodes : List Node) : Prop := ∃ s rest, nodes = .text s :: rest

/-- These segments have been taken, and what has been built holds their texts. The blanks at the end of
the last text may still be asked for, and it is the last node of the innermost body just if nothing
else has been taken since. -/
structure Spaced (b : Builder) (segments : List Segment) : Prop where
  verbatim : b.verbatim = none
  frames : ∀ f ∈ b.frames, f.Orderly
  trimNext : b.trimNext = segments.getLast?.any Segment.trimsRight
  endsWithText : EndsWithText b.current ↔ ∃ s, segments.getLast? = some s ∧ s.kind = .text
  texts : b.texts = Segment.spacedTexts none none segments

theorem spaced_nil : Spaced {} [] where
  verbatim := rfl
  frames := fun _ hf => nomatch hf
  trimNext := rfl
  endsWithText := ⟨(fun ⟨_, _, h⟩ => nomatch h), fun ⟨_, h, _⟩ => nomatch h⟩
  texts := rfl

section

variable {b b' : Builder} {s : Segment} {segments : List Segment}

theorem trimLast_of_not_endsWithText {nodes : List Node} (hnodes : ¬ EndsWithText nodes) :
    trimLast nodes = nodes := by
  unfold trimLast
  split
  · exact absurd ⟨_, _, rfl⟩ hnodes
  · rfl

/-- The hyphen in front of a tag or output takes the blanks off the text in front of it, if there is one,
and off no other. -/
theorem Spaced.texts_applyTrims (hb : b.Spaced segments) (hkind : s.kind ≠ .text) :
    (b.applyTrims s).texts = Segment.spacedTexts none none (segments ++ [s]) := by
  rw [Segment.spacedTexts_concat, if_neg hkind, List.append_nil]
  cases hleft : s.trimsLeft with
  | false =>
    rw [Segment.spacedTexts_of_not_trimsLeft none hleft, ← hb.texts, applyTrims, hleft]
    rfl
  | true =>
    obtain ⟨front, htexts, hfront⟩ := exists_texts_eq b
    have htrimmed : (b.applyTrims s).texts = front ++ textsOfBody (trimLast b.current).reverse := by
      rw [← hfront, applyTrims, hleft]
      rfl
    rw [htrimmed]
    by_cases hends : EndsWithText b.current
    · obtain ⟨last, hlast, htext⟩ := hb.endsWithText.mp hends
      obtain ⟨t, rest, hcurrent⟩ := hends
      obtain ⟨before, rfl⟩ := List.getLast?_eq_some_iff.mp hlast
      -- the last text is told from those in front of it
      have hsplit : (front ++ textsOfBody rest.reverse) ++ [t] =
          Segment.spacedTexts none (some last) before ++ [last.spaced (before.getLast?.or none) none] := by
        have hall := hb.texts
        rw [htexts, hcurrent, Node.textsOfBody_reverse_cons, Node.texts, ← List.append_assoc,
          Segment.spacedTexts_concat, if_pos htext] at hall
        exact hall
      obtain ⟨hrest, ht⟩ := List.append_inj' hsplit rfl
      rw [hcurrent, trimLast, Node.textsOfBody_reverse_cons, Node.texts, ← List.append_assoc, hrest,
        Segment.spacedTexts_concat, if_pos htext, Segment.spaced_of_trimsLeft _ _ hleft,
        List.cons.inj ht |>.1]
    · -- there is no text in front of the hyphen
      rw [trimLast_of_not_endsWithText hends, ← htexts, hb.texts]
      cases hlast : segments.getLast? with
      | none =>
        rw [List.getLast?_eq_none_iff.mp hlast]
        rfl
      | some last =>
        obtain ⟨before, rfl⟩ := List.getLast?_eq_some_iff.mp hlast
        have htext : last.kind ≠ .text := fun htext =>
          hends (hb.endsWithText.mpr ⟨last, hlast, htext⟩)
        rw [Segment.spacedTexts_concat, Segment.spacedTexts_concat, if_neg htext, if_neg htext]

/-- What a tag or output does besides trimming keeps the texts in order if it ends in front of no text. -/
theorem Spaced.of_applyTrims (hb : b.Spaced segments) (hkind : s.kind ≠ .text)
    (hverbatim : b'.verbatim = none) (hframes : ∀ f ∈ b'.frames, f.Orderly)
    (htrim : b'.trimNext = s.trimsRight) (hends : ¬ EndsWithText b'.current)
    (htexts : b'.texts = (b.applyTrims s).texts) : b'.Spaced (segments ++ [s]) where
  verbatim := hverbatim
  frames := hframes
  trimNext := by rw [htrim, List.getLast?_concat, Option.any_some]
  endsWithText := by
    refine iff_of_false hends ?_
    rintro ⟨_, hlast, htext⟩
    rw [List.getLast?_concat] at hlast
    cases hlast
    exact hkind htext
  texts := by rw [htexts, hb.texts_applyTrims hkind]

/-- A text loses the blanks in front of it if the segment before it asks for that. -/
theorem Spaced.addText (hb : b.Spaced segments) (hkind : s.kind = .text) :
    (b.addText s).Spaced (segments ++ [s]) where
  verbatim := (verbatim_addText b s).trans hb.verbatim
  frames := orderly_setCurrent b hb.frames _
  trimNext := by
    rw [List.getLast?_concat, Option.any_some, Segment.trimsRight_of_text hkind]
    rfl
  endsWithText := by
    refine iff_of_true ⟨_, _, current_add b _⟩ ⟨s, List.getLast?_concat, hkind⟩
  texts := by
    have htext : (if b.trimNext then Text.trimLeftText s.text else s.text) =
        s.spaced (segments.getLast?.or none) none := by
      rw [hb.trimNext, Option.or_none]
      rfl
    rw [Segment.spacedTexts_concat, if_pos hkind,
      Segment.spacedTexts_of_not_trimsLeft none (Segment.trimsLeft_of_text hkind), ← hb.texts, ← htext]
    exact texts_add b _

theorem not_endsWithText_nil : ¬ EndsWithText [] := fun ⟨_, _, h⟩ => nomatch h

/-- A node that is no text, and holds none, keeps the texts in order. -/
theorem Spaced.add {node : Node} (hb : b.Spaced segments) (hkind : s.kind ≠ .text)
    (htexts : node.texts = []) : ((b.applyTrims s).add node).Spaced (segments ++ [s]) := by
  refine hb.of_applyTrims hkind ?_ ?_ ?_ ?_ ?_
  · rw [verbatim_add, verbatim_applyTrims, hb.verbatim]
  · exact orderly_setCurrent _ (orderly_applyTrims b hb.frames s) _
  · exact trimNext_setCurrent _ _
  · rw [current_add]
    rintro ⟨t, rest, heq⟩
    rw [(List.cons.inj heq).1, Node.texts] at htexts
    cases htexts
  · rw [texts_add, htexts, List.append_nil]

/-- A node that is read of a tag holds no text. -/
theorem ReadsAs.texts_node {kind : TagKind} {tag : Tag} {node : Node}
    (hreads : ReadsAs tag kind (.node node)) : node.texts = [] := by
  cases hreads <;> rfl

/-- Only the head of a comment opens one. -/
theorem ReadsAs.kind_comment {kind : TagKind} {tag : Tag} {guard : Guard}
    (hreads : ReadsAs tag kind (.opens (.block .comment) guard)) : kind = .comment := by
  cases hreads
  rfl

variable {options : ParseOptions} {p : Segment.Placed}

/-- **Step lemma.** Every segment that opens no verbatim section and no comment leaves the texts in
order. -/
theorem Takes.spaced (htakes : Takes options b p b')
    (hplain : ∀ tag markup, p.IsTag tag markup →
      options.tags.get? tag.name ≠ some .raw ∧ options.tags.get? tag.name ≠ some .comment)
    (hb : b.Spaced segments) : b'.Spaced (segments ++ [p.segment]) := by
  have hverbatim : (b.applyTrims p.segment).verbatim = none :=
    (verbatim_applyTrims b p.segment).trans hb.verbatim
  have hframes := orderly_applyTrims b hb.frames p.segment
  have htagged {tag : Tag} {markup : List Char} (htag : p.IsTag tag markup) :
      p.segment.kind ≠ .text := by
    rw [htag.1]
    exact nofun
  cases htakes with
  | verbatim v hsome =>
    rw [hb.verbatim] at hsome
    cases hsome
  | text _ hkind => exact hb.addText hkind
  | output _ houtput _ =>
    refine hb.add ?_ rfl
    rw [houtput.1]
    exact nofun
  | node _ htag =>
    obtain ⟨kind, -, hreads⟩ := readsAs_of_isRegistered htag
    obtain ⟨markup, -, htag, -⟩ := htag
    exact hb.add (htagged htag) hreads.texts_node
  | @opens tag opening guard _ htag _ =>
    obtain ⟨kind, hkind, hreads⟩ := readsAs_of_isRegistered htag
    have hregular := regular_opened htag
    obtain ⟨markup, -, htag, -⟩ := htag
    have hcomment : opening ≠ .block .comment := by
      rintro rfl
      rw [hreads.kind_comment] at hkind
      exact (hplain tag markup htag).2 hkind
    refine hb.of_applyTrims (htagged htag) hverbatim
      (List.forall_mem_cons.mpr ⟨⟨hregular, hcomment⟩, hframes⟩) rfl not_endsWithText_nil ?_
    rw [texts_of_frames _ rfl]
    exact List.append_nil _
  | @raw tag _ htag =>
    obtain ⟨kind, hkind, hreads⟩ := readsAs_of_isRegistered htag
    obtain ⟨markup, -, htag, -⟩ := htag
    cases hreads
    exact absurd hkind (hplain tag markup htag).1
  | @ends tag markup f rest _ htag hopen _ =>
    rw [hopen] at hframes
    obtain ⟨hf, hrest⟩ := List.forall_mem_cons.mp hframes
    refine hb.of_applyTrims (htagged htag.1) ((verbatim_add _ _).trans hverbatim)
      (orderly_setCurrent _ hrest _) (trimNext_setCurrent _ _) ?_ ?_
    · rw [current_add]
      rintro ⟨t, others, heq⟩
      exact f.finish_ne_text t (List.cons.inj heq).1
    · rw [texts_add, Frame.texts_finish hf.regular, ← texts_of_frames _ hopen]
  | @starts tag markup f rest guard _ htag hopen hread =>
    rw [hopen] at hframes
    obtain ⟨hf, hrest⟩ := List.forall_mem_cons.mp hframes
    have hregular := Frame.regular_startPart hf.regular (readsPart_of_readPart htag hread)
    refine hb.of_applyTrims (htagged htag.1) hverbatim
      (List.forall_mem_cons.mpr ⟨⟨hregular, hf.noComment⟩, hrest⟩) rfl not_endsWithText_nil ?_
    rw [texts_of_frames _ rfl, Frame.texts_startPart, ← texts_of_frames _ hopen]
  | @skipped tag markup f rest _ htag hopen hread =>
    -- only a comment skips a tag
    rw [hopen] at hframes
    have hskips : Continues options f.tag.name p f.continuation none f.continuation :=
      readsPart_of_readPart htag hread
    generalize hk : f.continuation = k at hskips
    cases hskips
    exact absurd (Frame.opening_of_anything hk) (hframes f List.mem_cons_self).noComment

/-- **Run lemma.** -/
theorem Builds.spaced {placed : List Segment.Placed} (hbuilds : Builds options b placed b')
    (hplain : ∀ p ∈ placed, ∀ tag markup, p.IsTag tag markup →
      options.tags.get? tag.name ≠ some .raw ∧ options.tags.get? tag.name ≠ some .comment)
    (hb : b.Spaced segments) : b'.Spaced (segments ++ placed.map (·.segment)) := by
  induction placed generalizing b segments with
  | nil =>
    cases builds_nil.mp hbuilds
    rw [List.map_nil, List.append_nil]
    exact hb
  | cons p rest ih =>
    obtain ⟨hp, hrest⟩ := List.forall_mem_cons.mp hplain
    obtain ⟨next, htakes, hbuilds⟩ := builds_cons.mp hbuilds
    have hall := ih hbuilds hrest (htakes.spaced hp hb)
    rw [List.append_assoc] at hall
    exact hall

end

end Builder

/-! ## Whole templates -/

/-- **A hyphen trims the text next to it and nothing else.** Of a source without verbatim sections and
comments, the texts of the tree are the texts of the source in their order, those included that stand in
front of the first alternative of a case. A text has lost the blanks in front of it just if the segment
right before it ends with a hyphen, and those at its end just if the segment right behind it starts with
one, whatever bodies these segments belong to; nothing else in it has changed. -/
theorem texts_of_parse (env : Environment) (overrides : ParseOverrides) (name : Option String)
    (source : String) (options : ParseOptions) (t : Template)
    (hoptions : env.parseOptions overrides name = .ok options)
    (hplain : ∀ p ∈ Segment.scanPlaced options.numbered source.toList, ∀ tag markup,
      p.IsTag tag markup →
        options.tags.get? tag.name ≠ some .raw ∧ options.tags.get? tag.name ≠ some .comment)
    (ht : (env.parse overrides name source).1 = .ok t) :
    Node.textsOfBody t.body = Segment.spacedTexts none none (Segment.scan source.toList) := by
  obtain ⟨-, b, hbuilds, -, hframes, hbody⟩ :=
    parseBody_eq_ok_iff.mp (Environment.body_of_parse hoptions ht)
  have hspaced := hbuilds.spaced hplain Builder.spaced_nil
  rw [Segment.scanPlaced, Segment.map_segment_place, List.nil_append] at hspaced
  rw [hbody, ← hspaced.texts, Builder.texts, hframes, List.reverse_nil, List.flatMap_nil,
    List.append_nil]

/-- A choice with a hyphen at some of its tags. -/
def hyphenSource : String :=
  "a \x7b%- if x -%\x7d b \x7b%- else %\x7d c \x7b% endif -%\x7d d"

/-- The blanks go at the outer side of the head, and at both sides of the first branch and of the end. -/
theorem texts_of_parse_hyphenSource :
    ({} : Environment).parseOptions {} none = .ok {} ∧
      (∀ p ∈ Segment.scanPlaced true hyphenSource.toList, ∀ tag markup, p.IsTag tag markup →
        builtinTags.get? tag.name ≠ some .raw ∧ builtinTags.get? tag.name ≠ some .comment) ∧
      ∃ t, (({} : Environment).parse {} none hyphenSource).1 = .ok t ∧
        Node.textsOfBody t.body = ["a", "b", " c ", "d"] := by
  have hnames : (Segment.scanPlaced true hyphenSource.toList).all (fun p =>
      let kind := p.segment.tag?.bind fun part => builtinTags.get? (String.ofList part.1)
      kind != some .raw && kind != some .comment) = true := by decide +kernel
  have hplain : ∀ p ∈ Segment.scanPlaced true hyphenSource.toList, ∀ tag markup,
      p.IsTag tag markup →
        builtinTags.get? tag.name ≠ some .raw ∧ builtinTags.get? tag.name ≠ some .comment := by
    rintro p hp tag markup ⟨-, name, htag, rfl⟩
    have hnot := List.all_eq_true.mp hnames p hp
    rw [htag, Option.bind_some, Bool.and_eq_true, bne_iff_ne, bne_iff_ne] at hnot
    exact hnot
  cases ht : (({} : Environment).parse {} none hyphenSource).1 with
  | error e =>
    have hread : (({} : Environment).parse {} none hyphenSource).1.isOk = true := by decide +kernel
    rw [ht] at hread
    cases hread
  | ok t =>
    refine ⟨rfl, hplain, t, rfl, ?_⟩
    rw [texts_of_parse {} {} none hyphenSource {} t rfl hplain ht]
    decide +kernel

end Stencil
