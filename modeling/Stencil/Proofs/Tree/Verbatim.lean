import Stencil.Proofs.Markup.Boundaries
import Stencil.Proofs.Text.Spans
import Stencil.Proofs.Tree.Relocation

/-!
# Verbatim sections

A source is cut into segments before anyone knows which of them stand in a verbatim section. The section
keeps what it is cut into, and ends at the last tag of a segment, so that its content comes out unchanged
if a segment ends where the section does. A tag or output that is left open inside the section, or a quote
in one, may go on behind the end, which is then not found (`verbatim_section_unclosed`).

* `Segment.IsVerbatim s`: the text holds no opening of the end of a verbatim section.
* `verbatim_section_read`: a verbatim section and what follows it, if a segment ends in between.
-/

namespace Stencil

open Text Parsing

namespace Segment

/-! ## Sections -/

/-- The head of a verbatim section. -/
def verbatimHead : List Char := "\x7b% raw %\x7d".toList

/-- The end of a verbatim section. -/
def verbatimEnd : List Char := "\x7b% endraw %\x7d".toList

/-- The text holds no opening of the end of a verbatim section: an opener, a hyphen or none, blanks, and
the name. -/
def IsVerbatim (s : List Char) : Prop :=
  ∀ hyphen gap, (hyphen = [] ∨ hyphen = ['-']) → IsGap gap →
    ¬ ['{', '%'] ++ hyphen ++ gap ++ "endraw".toList <:+: s

theorem isVerbatim_of_not_infix {s : List Char} (hname : ¬ "endraw".toList <:+: s) : IsVerbatim s :=
  fun _ _ _ _ hwithin => hname ((List.suffix_append _ _).isInfix.trans hwithin)

/-! ## The last tag of a segment -/

/-- The name of a tag stands behind a hyphen or none, and blanks. -/
theorem tagParts?_eq_some {s name markup : List Char} (hparts : tagParts? s = some (name, markup)) :
    ∃ hyphen gap rest, (hyphen = [] ∨ hyphen = ['-']) ∧ IsGap gap ∧ s = hyphen ++ gap ++ name ++ rest := by
  unfold tagParts? at hparts
  dsimp only at hparts
  split at hparts
  · cases hparts
  · obtain ⟨_, -, heq⟩ := Option.map_eq_some_iff.mp hparts
    obtain ⟨rfl, -⟩ := Prod.mk.inj heq
    obtain ⟨gap, rest, hs, hgap, -, htrim⟩ := exists_gap (dropHyphen s)
    have hrest : gap ++ (rest.takeWhile isWordChar ++ rest.dropWhile isWordChar) = dropHyphen s := by
      rw [List.takeWhile_append_dropWhile, hs]
    rw [htrim]
    unfold dropHyphen at hrest
    split at hrest
    · next tail => exact ⟨['-'], gap, rest.dropWhile isWordChar, .inr rfl, hgap, by simp [← hrest]⟩
    · exact ⟨[], gap, rest.dropWhile isWordChar, .inl rfl, hgap, by simp [← hrest]⟩

theorem lastTag?_eq_some {s before name : List Char} (hlast : lastTag? s = some (before, name)) :
    ∃ body markup, s = before ++ '{' :: '%' :: body ∧ tagParts? body = some (name, markup) := by
  induction s generalizing before with
  | nil => cases hlast
  | cons c rest ih =>
    unfold lastTag? at hlast
    split at hlast
    · next front name' hrest =>
      cases hlast
      obtain ⟨body, markup, hs, hparts⟩ := ih hrest
      exact ⟨body, markup, congrArg (c :: ·) hs, hparts⟩
    · split at hlast
      · next body _ =>
        obtain ⟨⟨name', markup⟩, hparts, heq⟩ := Option.map_eq_some_iff.mp hlast
        cases heq
        exact ⟨body, markup, rfl, hparts⟩
      · cases hlast

/-- No segment in a verbatim text ends the section. -/
theorem IsVerbatim.name_ne {s chars before name : List Char} (hs : IsVerbatim s) (hchars : chars <:+: s)
    (hlast : lastTag? chars = some (before, name)) : String.ofList name ≠ "endraw" := by
  intro hname
  obtain ⟨body, markup, rfl, hparts⟩ := lastTag?_eq_some hlast
  obtain ⟨hyphen, gap, rest, hhyphen, hgap, rfl⟩ := tagParts?_eq_some hparts
  refine hs hyphen gap hhyphen hgap (List.IsInfix.trans ⟨before, rest, ?_⟩ hchars)
  rw [← hname]
  simp

/-- The end of a section is the last tag of its segment, whatever stands in front of it. -/
theorem lastTag?_append_end (front : List Char) :
    lastTag? (front ++ verbatimEnd) = some (front, "endraw".toList) := by
  induction front with
  | nil => rfl
  | cons c front ih =>
    rw [List.cons_append]
    unfold lastTag?
    rw [ih]

/-- The end of a section has no hyphen. -/
theorem trimsRight_append_end (kind : Kind) (front : List Char) :
    trimsRight ⟨kind, front ++ verbatimEnd⟩ = false := by
  have hlength : (front ++ verbatimEnd).length - 3 = front.length + 9 := by
    rw [List.length_append, show verbatimEnd.length = 12 from rfl]
    omega
  have hblank : (front ++ verbatimEnd)[(front ++ verbatimEnd).length - 3]? = some ' ' := by
    rw [hlength, List.getElem?_append_right (Nat.le_add_right ..), Nat.add_sub_cancel_left]
    rfl
  unfold trimsRight
  dsimp only
  rw [hblank]
  exact Bool.and_false _

/-! ## The segment with the end -/

/-- Inside the end of a section no brace closes or opens. -/
theorem no_brace_inside_end {front back : List Char} (hend : verbatimEnd = front ++ back)
    (hfront : front ≠ []) (hback : back ≠ []) : front.getLast? ≠ some '}' ∧ back.head? ≠ some '{' := by
  have hall : ∀ n < 12, 0 < n →
      (verbatimEnd.take n).getLast? ≠ some '}' ∧ (verbatimEnd.drop n).head? ≠ some '{' := by decide
  have hlength : front.length + back.length = 12 := by
    rw [← List.length_append, ← hend]
    rfl
  have hpositive := List.length_pos_iff.mpr hfront
  have hpositive' := List.length_pos_iff.mpr hback
  have hsplit := hall front.length (by omega) hpositive
  rwa [hend, List.take_left, List.drop_left] at hsplit

/-- **The end of a section stands in one segment**, if one ends behind it. -/
theorem exists_last_of_cutBehind {content rest : List Char}
    (hcut : CutBehind (content ++ verbatimEnd) rest) :
    ∃ init kind front, scan (content ++ verbatimEnd ++ rest) =
        init ++ ⟨kind, front ++ verbatimEnd⟩ :: scan rest ∧
      init.flatMap (·.chars) ++ front = content := by
  obtain ⟨segments, hscan, hchars⟩ := hcut
  have hne : segments ≠ [] := by
    rintro rfl
    exact List.append_ne_nil_of_right_ne_nil content (by decide) hchars.symm
  obtain ⟨init, last, rfl⟩ := (List.eq_nil_or_concat' segments).resolve_left hne
  rw [List.flatMap_append, List.flatMap_singleton] at hchars
  rw [List.append_assoc init, List.singleton_append] at hscan
  obtain ⟨kind, chars⟩ := last
  rcases List.append_eq_append_iff.mp hchars with ⟨front, rfl, hlast⟩ | ⟨inside, hinit, hend⟩
  · dsimp only at hlast
    subst hlast
    exact ⟨init, kind, front, hscan, rfl⟩
  · cases inside with
    | nil =>
      rw [List.append_nil] at hinit
      rw [List.nil_append] at hend
      exact ⟨init, kind, [], by rw [hscan, hend]; rfl, by rw [List.append_nil, hinit]⟩
    | cons c inside =>
      -- a cut inside the end would need a brace there
      have hnonempty := ((scan_segmentation _).2.2.1 init _ _ hscan).nonempty
      obtain ⟨hclosing, hopening⟩ := no_brace_inside_end hend (List.cons_ne_nil c inside) hnonempty
      have hbefore : init ≠ [] := by
        rintro rfl
        simp at hinit
      rcases brace_at_cut hscan hbefore (List.cons_ne_nil _ _) with hbrace | hbrace
      · rw [hinit, List.getLast?_append_of_ne_nil _ (List.cons_ne_nil c inside)] at hbrace
        exact absurd hbrace hclosing
      · rw [List.flatMap_cons, List.head?_append_of_ne_nil _ hnonempty] at hbrace
        exact absurd hbrace hopening

/-- A section whose tags and outputs are closed ends where a segment does, whatever follows it, and so does
one that nothing follows. -/
theorem cutBehind_verbatimEnd {content rest : List Char}
    (hclosed : (∀ segment ∈ scan (content ++ verbatimEnd), segment.IsClosed) ∨ rest = []) :
    CutBehind (content ++ verbatimEnd) rest := by
  rcases hclosed with hclosed | rfl
  · refine cutBehind_of_isClosed hclosed (fun last hlast htext => ?_) rest
    -- the last segment holds the opener of the end
    obtain ⟨init, kind, front, hscan, -⟩ := exists_last_of_cutBehind (cutBehind_nil (content ++ verbatimEnd))
    rw [List.append_nil] at hscan
    have hformed := (scan_segmentation _).2.2.1 init _ _ hscan
    rw [hscan, show scan [] = [] from rfl, List.getLast?_concat, Option.mem_some_iff] at hlast
    subst hlast
    exact (hformed.text htext).1.1 ⟨front, verbatimEnd.drop 2, List.append_assoc ..⟩
  · exact cutBehind_nil _

end Segment

open Segment (verbatimHead verbatimEnd IsVerbatim CutBehind)

/-! ## Building a section -/

namespace Builder

variable {options : ParseOptions} {b : Builder} {v : Verbatim}

/-- Segments that do not end a verbatim section are kept as they are. -/
theorem builds_verbatim {segments : List Segment.Placed} (hverbatim : b.verbatim = some v)
    (hkept : ∀ p ∈ segments, ∀ before name, Segment.lastTag? p.segment.chars = some (before, name) →
      String.ofList name ≠ Complaint.delimiter v.tag.name) :
    Builds options b segments { b with
      verbatim := some { v with
        pieces := (segments.map (·.segment.chars)).reverse ++ v.pieces } } := by
  -- the newest piece stands first
  induction segments generalizing b v with
  | nil =>
    refine builds_nil.mpr ?_
    rw [List.map_nil, List.reverse_nil, List.nil_append]
    obtain ⟨outer, frames, verbatim, trimNext⟩ := b
    cases hverbatim
    rfl
  | cons p rest ih =>
    obtain ⟨hp, hrest⟩ := List.forall_mem_cons.mp hkept
    have htake : b.takeVerbatim v p.segment =
        { b with verbatim := some { v with pieces := p.segment.chars :: v.pieces } } := by
      unfold takeVerbatim
      split
      · next before name hlast => rw [if_neg (fun h => hp before name hlast (beq_iff_eq.mp h))]
      · rfl
    refine builds_cons.mpr ⟨_, .verbatim v hverbatim, ?_⟩
    rw [htake]
    have hbuilds := ih (b := { b with
      verbatim := some { v with pieces := p.segment.chars :: v.pieces } }) rfl hrest
    simp only [List.map_cons, List.reverse_cons, List.append_assoc, List.singleton_append]
    exact hbuilds

/-- The end of a verbatim section makes a node of its text. -/
theorem takeVerbatim_end (hname : v.tag.name = "raw") (kind : Segment.Kind) (front : List Char) :
    b.takeVerbatim v ⟨kind, front ++ verbatimEnd⟩ =
      { b.add (.raw v.tag (String.ofList (v.pieces.reverse.flatten ++ front))) with
        verbatim := none
        trimNext := false } := by
  have hdelimiter : ("endraw" == Complaint.delimiter v.tag.name) = true := by
    rw [hname]
    rfl
  unfold takeVerbatim
  dsimp only
  rw [Segment.lastTag?_append_end]
  dsimp only
  rw [String.ofList_toList, if_pos hdelimiter, Segment.trimsRight_append_end, List.reverse_cons,
    List.flatten_append, List.flatten_singleton]

/-- The head of a section is cut off first, whatever follows it. -/
theorem next_verbatimHead (s : List Char) :
    Segment.next (verbatimHead ++ s) = (⟨.tag, verbatimHead⟩, s) := rfl

/-- **A verbatim section is read as its text**, if a segment ends behind it. -/
theorem builds_section {content rest : List Char} (hraw : options.tags.get? "raw" = some .raw)
    (hcontent : IsVerbatim content) (hcut : CutBehind (content ++ verbatimEnd) rest)
    (line : Option Nat) :
    ∃ before, Segment.place line (Segment.scan (verbatimHead ++ (content ++ verbatimEnd ++ rest))) =
        before ++ Segment.place (line.map (· + content.count '\n')) (Segment.scan rest) ∧
      Builds options {} before
        { nodes := [.raw ⟨"raw", "", line⟩ (String.ofList content)] } := by
  obtain ⟨init, kind, front, hscan, rfl⟩ := Segment.exists_last_of_cutBehind hcut
  have hhead := Segment.scan_of_next (List.append_ne_nil_of_left_ne_nil (by decide) _)
    (next_verbatimHead (init.flatMap (·.chars) ++ front ++ verbatimEnd ++ rest))
  let parts : List Segment := ⟨.tag, verbatimHead⟩ :: (init ++ [⟨kind, front ++ verbatimEnd⟩])
  refine ⟨Segment.place line parts, ?_, ?_⟩
  · -- head and end hold no line break
    have hcount : (parts.flatMap (·.chars)).count '\n' =
        (init.flatMap (·.chars) ++ front).count '\n' := by
      simp only [parts, List.flatMap_cons, List.flatMap_append, List.flatMap_nil, List.append_nil,
        List.count_append, show verbatimHead.count '\n' = 0 from rfl,
        show verbatimEnd.count '\n' = 0 from rfl]
      omega
    rw [hhead, hscan, ← hcount, ← Segment.place_append]
    simp [parts]
  · let tag : Tag := ⟨"raw", "", line⟩
    let inside := line.map (· + verbatimHead.count '\n')
    have hregistered : Segment.Placed.IsRegistered options ⟨⟨.tag, verbatimHead⟩, line, inside⟩ tag
        .verbatim := ⟨[], .raw, ⟨rfl, "raw".toList, rfl, rfl⟩, hraw, rfl⟩
    have hkept : ∀ p ∈ Segment.place inside init, ∀ before name,
        Segment.lastTag? p.segment.chars = some (before, name) →
          String.ofList name ≠ Complaint.delimiter tag.name := by
      intro p hp before name hlast
      have hmem : p.segment ∈ init := by
        rw [← Segment.map_segment_place inside init]
        exact List.mem_map_of_mem hp
      have hwithin : p.segment.chars <:+: init.flatMap (·.chars) :=
        List.infix_of_mem_flatten (List.mem_map_of_mem hmem)
      exact hcontent.name_ne (hwithin.trans (List.prefix_append _ front).isInfix) hlast
    have hhead' : Builds options {} [⟨⟨.tag, verbatimHead⟩, line, inside⟩]
        { verbatim := some { tag } } := (Takes.raw rfl hregistered).builds
    have hinit : Builds options { verbatim := some { tag } } (Segment.place inside init)
        { verbatim := some { tag, pieces := (init.map (·.chars)).reverse } } := by
      have hpieces : Builds options { verbatim := some { tag } } (Segment.place inside init) _ :=
        builds_verbatim rfl hkept
      rw [List.append_nil, ← Function.comp_def, ← List.map_map, Segment.map_segment_place] at hpieces
      exact hpieces
    have hend (here next : Option Nat) :
        Builds options { verbatim := some { tag, pieces := (init.map (·.chars)).reverse } }
          [⟨⟨kind, front ++ verbatimEnd⟩, here, next⟩]
          { nodes := [.raw tag (String.ofList (init.flatMap (·.chars) ++ front))] } := by
      have htakes : Builds options { verbatim := some { tag, pieces := (init.map (·.chars)).reverse } }
          [⟨⟨kind, front ++ verbatimEnd⟩, here, next⟩] _ := (Takes.verbatim _ rfl).builds
      rw [takeVerbatim_end rfl, List.reverse_reverse] at htakes
      exact htakes
    have hplace : Segment.place line parts = [⟨⟨.tag, verbatimHead⟩, line, inside⟩] ++
        Segment.place inside (init ++ [⟨kind, front ++ verbatimEnd⟩]) := rfl
    rw [hplace, Segment.place_append]
    exact hhead'.append (hinit.append (hend _ _))

end Builder

/-! ## Whole templates -/

/-- **Verbatim sections.** Let a text hold no opening of the end of a verbatim section, and let a source be
read by itself. If a segment ends behind the section with this text, then the section and the source behind
it are read as a node with exactly this text and the nodes of the source, on the lines they are on now. A
segment ends there if the section is all there is, or if every tag and output that it is cut into has its
closer outside quotes, whatever the source behind it is. -/
theorem verbatim_section_read (env : Environment) (overrides : ParseOverrides) (name : Option String)
    (options : ParseOptions) (content rest : String) (t : Template)
    (hoptions : env.parseOptions overrides name = .ok options)
    (hraw : options.tags.get? "raw" = some .raw) (hcontent : IsVerbatim content.toList)
    (ht : (env.parse overrides name rest).1 = .ok t) :
    (CutBehind (content.toList ++ verbatimEnd) rest.toList → ∃ t',
      (env.parse overrides name
        ("\x7b% raw %\x7d" ++ content ++ "\x7b% endraw %\x7d" ++ rest)).1 = .ok t' ∧
      t'.body = .raw ⟨"raw", "", if options.numbered then some 1 else none⟩ content ::
        Node.relocateBody (· + content.toList.count '\n') t.body) ∧
    ((∀ segment ∈ Segment.scan (content.toList ++ verbatimEnd), segment.IsClosed) ∨ rest = "" →
      CutBehind (content.toList ++ verbatimEnd) rest.toList) := by
  constructor
  · intro hcut
    obtain ⟨hdepth, b, hbuilds, hverbatim, hframes, hbody⟩ :=
      parseBody_eq_ok_iff.mp (Environment.body_of_parse hoptions ht)
    let line : Option Nat := if options.numbered then some 1 else none
    -- the section is built first, and then the source as by itself, but further down
    obtain ⟨before, hplace, hsection⟩ := Builder.builds_section hraw hcontent hcut line
    have hrest : Builder.Builds options { nodes := [.raw ⟨"raw", "", line⟩ content] }
        ((Segment.scanPlaced options.numbered rest.toList).map
          (Segment.Placed.relocate (· + content.toList.count '\n')))
        (b.behind (· + content.toList.count '\n') [.raw ⟨"raw", "", line⟩ content]) :=
      hbuilds.behind (by rintro s ⟨⟩)
    rw [String.ofList_toList] at hsection
    have hsource : ("\x7b% raw %\x7d" ++ content ++ "\x7b% endraw %\x7d" ++ rest).toList =
        verbatimHead ++ (content.toList ++ verbatimEnd ++ rest.toList) := by
      simp only [String.toList_append, List.append_assoc]
      rfl
    have hparse : (parseBody options
        ("\x7b% raw %\x7d" ++ content ++ "\x7b% endraw %\x7d" ++ rest).toList).outcome =
          .ok (.raw ⟨"raw", "", line⟩ content ::
            Node.relocateBody (· + content.toList.count '\n') t.body) := by
      refine parseBody_eq_ok_iff.mpr ⟨hdepth,
        b.behind (· + content.toList.count '\n') [.raw ⟨"raw", "", line⟩ content], ?_, ?_, ?_, ?_⟩
      · rw [hsource]
        change Builder.Builds options {} (Segment.place line _) _
        rw [hplace, Segment.place_relocate]
        exact hsection.append hrest
      · rw [Builder.behind, hverbatim]
        rfl
      · rw [Builder.behind, hframes]
        rfl
      · rw [hbody, Builder.behind, List.reverse_append, Node.relocateBody_eq_map,
          Node.relocateBody_eq_map, List.map_reverse]
        rfl
    obtain ⟨t', ht'⟩ := Environment.parse_of_body hoptions hparse
    refine ⟨t', ht', ?_⟩
    have hbody' := Environment.body_of_parse hoptions ht'
    rw [hparse] at hbody'
    exact (Except.ok.inj hbody').symm
  · rintro (hclosed | rfl)
    · exact Segment.cutBehind_verbatimEnd (.inl hclosed)
    · exact Segment.cutBehind_verbatimEnd (.inr rfl)

/-- A text with an output, and a tag that is left open. -/
def openContent : String := "\x7b\x7b x \x7d\x7d\n\x7b% if y "

/-- The tag that is left open ends with the section, and the one behind it is read on the second line. -/
theorem verbatim_section_read_openContent :
    ({} : Environment).parseOptions {} none = .ok {} ∧ builtinTags.get? "raw" = some .raw ∧
      IsVerbatim openContent.toList ∧
      CutBehind (openContent.toList ++ verbatimEnd) "\x7b% break %\x7d".toList ∧
      ∃ t', (({} : Environment).parse {} none
          ("\x7b% raw %\x7d" ++ openContent ++ "\x7b% endraw %\x7d" ++ "\x7b% break %\x7d")).1 = .ok t' ∧
        t'.body = [.raw ⟨"raw", "", some 1⟩ openContent, .interrupt ⟨"break", "", some 2⟩ .leave] := by
  have hcontent : IsVerbatim openContent.toList := Segment.isVerbatim_of_not_infix (by decide)
  have hbreak : (({} : Environment).parse {} none "\x7b% break %\x7d").1.map (·.body) =
      .ok [.interrupt ⟨"break", "", some 1⟩ .leave] := rfl
  cases ht : (({} : Environment).parse {} none "\x7b% break %\x7d").1 with
  | error e =>
    rw [ht] at hbreak
    cases hbreak
  | ok t =>
    obtain ⟨hread, hcut⟩ := verbatim_section_read {} {} none {} openContent "\x7b% break %\x7d" t rfl rfl
      hcontent ht
    have hbehind := hcut (.inl (by decide +kernel))
    obtain ⟨t', ht', hbody⟩ := hread hbehind
    refine ⟨rfl, rfl, hcontent, hbehind, t', ht', ?_⟩
    rw [ht] at hbreak
    have hrest : t.body = [.interrupt ⟨"break", "", some 1⟩ .leave] := Except.ok.inj hbreak
    rw [hbody, hrest]
    rfl

/-- An output that is left open takes the end of the section with it, and the quote of a tag that is left
open takes what is behind the section. -/
theorem verbatim_section_unclosed :
    (IsVerbatim "\x7b\x7b ".toList ∧
      (({} : Environment).parse {} none "x").1.map (·.body) = .ok [.text "x"] ∧
      ∃ e, (({} : Environment).parse {} none
          ("\x7b% raw %\x7d" ++ "\x7b\x7b " ++ "\x7b% endraw %\x7d" ++ "x")).1 = .error (.template e) ∧
        e.message = "'raw' tag was never closed") ∧
    (IsVerbatim "\x7b% '".toList ∧
      (({} : Environment).parse {} none "' %\x7d").1.map (·.body) = .ok [.text "' %\x7d"] ∧
      (({} : Environment).parse {} none
          ("\x7b% raw %\x7d" ++ "\x7b% '" ++ "\x7b% endraw %\x7d" ++ "' %\x7d")).1.map (·.body) =
        .ok [.raw ⟨"raw", "", some 1⟩ "\x7b% '"]) :=
  ⟨⟨Segment.isVerbatim_of_not_infix (by decide), rfl, _, rfl, rfl⟩,
    Segment.isVerbatim_of_not_infix (by decide), rfl, rfl⟩

end Stencil
