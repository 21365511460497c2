import Stencil.Proofs.Tree.Landmarks

/-!
# Lines are exact

When lines are counted, every tag and output of a tree has the line that it stands on in the source, and
every failure that of the segment it is about (`lines_exact`).
-/

namespace Stencil

open Parsing
open Segment (lineBreaks scanPlaced)

/-- A segment starts on the line behind all line breaks before it. -/
theorem Segment.line_of_scanPlaced_eq_append {source : List Char} {before later : List Placed}
    {p : Placed} (hsplit : scanPlaced true source = before ++ p :: later) :
    p.line = some (1 + lineBreaks before) :=
  (place_eq_append hsplit).1

/-- The tags and outputs of a tree stand in the segments of its source. -/
theorem stands_of_parseBody {options : ParseOptions} {source : List Char} {body : Body}
    (hnumbered : options.numbered = true) (hparse : (parseBody options source).outcome = .ok body) :
    Stands options [] none (scanPlaced true source) (Node.landmarksOfBody body) := by
  obtain ⟨-, b, hbuilds, hverbatim, hframes, hbody⟩ := parseBody_eq_ok_iff.mp hparse
  rw [hnumbered] at hbuilds
  obtain ⟨marks, hstands, hmarks⟩ := Builder.stands_of_builds []
    (show Builder.Regular {} from List.forall_mem_nil _)
    (fun _ _ _ => Segment.line_of_scanPlaced_eq_append) hbuilds hverbatim
  have hempty : Builder.landmarks {} = [] := by
    simp [Builder.landmarks, Node.landmarksOfBody]
  have hall : b.landmarks = Node.landmarksOfBody body := by
    rw [Builder.landmarks, hverbatim, hframes, hbody]
    simp
  rw [hempty, List.nil_append, hall] at hmarks
  rw [hmarks]
  exact hstands

namespace Environment

/-- What a template fails with is a failure of its body, with the source. -/
theorem error_of_parse {env : Environment} {overrides : ParseOverrides} {name : Option String}
    {source : String} {options : ParseOptions} (hoptions : env.parseOptions overrides name = .ok options)
    {e : Failure} (he : (env.parse overrides name source).1 = .error e) :
    ∃ f, (parseBody options source.toList).outcome = .error f ∧ e = Template.withSource source f := by
  rw [parse_eq hoptions] at he
  cases hbody : (parseBody options source.toList).outcome with
  | ok body =>
    rw [hbody] at he
    cases he
  | error f =>
    rw [hbody] at he
    cases he
    exact ⟨f, rfl, rfl⟩

end Environment

/-- **Lines are exact in trees and in failures.** The segments of a source are the source when put
together. When lines are counted and at least one level of nesting is allowed, the tags and outputs of a
tree, at all depths and with the outputs of assignments, stand in the segments of the source, each on the
line behind the line breaks in front of it. A template that cannot be read fails with the line of the
segment that is to blame: the first one that is not taken, or, when all are taken, the one that opens the
innermost section that is never closed. -/
theorem lines_exact (env : Environment) (overrides : ParseOverrides) (name : Option String)
    (source : String) (options : ParseOptions)
    (hoptions : env.parseOptions overrides name = .ok options) (hnumbered : options.numbered = true)
    (hdepth : 1 ≤ options.maxDepth) :
    (scanPlaced true source.toList).flatMap (·.segment.chars) = source.toList ∧
    (∀ t, (env.parse overrides name source).1 = .ok t →
      Stands options [] none (scanPlaced true source.toList) (Node.landmarksOfBody t.body)) ∧
    ∀ e, (env.parse overrides name source).1 = .error (.template e) →
      ∃ before p later, scanPlaced true source.toList = before ++ p :: later ∧
        e.line = some (1 + (lineBreaks before : Int)) ∧ p.IsBlamed options before later e := by
  refine ⟨?_, fun t ht => ?_, fun e he => ?_⟩
  · have hchars := (Segment.scan_segmentation source.toList).2.1
    rw [← Segment.map_segment_place (some 1) (Segment.scan source.toList), List.flatMap_map] at hchars
    exact hchars
  · exact stands_of_parseBody hnumbered (Environment.body_of_parse hoptions ht)
  · obtain ⟨f, hfails, heq⟩ := Environment.error_of_parse hoptions he
    cases f with
    | host f => cases heq
    | template f =>
      cases heq
      obtain ⟨before, p, later, hsplit, hline, hblamed⟩ :=
        exists_fault_of_parseBody hnumbered hdepth hfails
      rw [hnumbered] at hsplit
      refine ⟨before, p, later, hsplit, ?_, ?_⟩
      · dsimp only
        rw [hline, Segment.line_of_scanPlaced_eq_append hsplit]
        simp
      · -- the source that is attached makes no difference
        cases hblamed with
        | refused b f' hbefore hrefused hmessage hcode =>
          exact .refused b f' hbefore hrefused hmessage hcode
        | unclosed tag b b' last hopen hlast hmessage =>
          exact .unclosed tag b b' last hopen hlast hmessage

/-- A choice that is never closed, with an assignment inside, on several lines. -/
def unclosedSource : String :=
  "a\n\x7b% if x %\x7d\n\x7b% assign y =\nx %\x7d\n\x7b\x7b y \x7d\x7d"

/-- The failure has the line of the choice. Once the choice is closed, it stands in the source with the
assignment and the output. -/
theorem lines_exact_unclosedSource :
    (({} : Environment).parseOptions {} none = .ok {} ∧ ({} : ParseOptions).numbered = true ∧
      1 ≤ ({} : ParseOptions).maxDepth) ∧
    (∃ e before p later, (({} : Environment).parse {} none unclosedSource).1 = .error (.template e) ∧
      scanPlaced true unclosedSource.toList = before ++ p :: later ∧ e.line = some 2 ∧
      e.line = some (1 + (lineBreaks before : Int)) ∧ Segment.Placed.IsBlamed {} before p later e) ∧
    ∃ t, (({} : Environment).parse {} none (unclosedSource ++ "\x7b% endif %\x7d")).1 = .ok t ∧
      (Node.landmarksOfBody t.body).length = 3 ∧
      Stands {} [] none (scanPlaced true (unclosedSource ++ "\x7b% endif %\x7d").toList)
        (Node.landmarksOfBody t.body) := by
  refine ⟨⟨rfl, rfl, by decide⟩, ?_, ?_⟩
  · have hfails : (({} : Environment).parse {} none unclosedSource).1.map (fun _ => ()) =
        .error (.template { (Complaint.neverClosed "if").toError with
          line := some 2, source := some unclosedSource }) := by
      decide +kernel
    have ht := map_eq_error_iff.mp hfails
    obtain ⟨before, p, later, hsplit, hat, hblamed⟩ :=
      (lines_exact {} {} none unclosedSource {} rfl rfl (by decide)).2.2 _ ht
    exact ⟨_, before, p, later, ht, hsplit, rfl, hat, hblamed⟩
  · have hlength : (({} : Environment).parse {} none
        (unclosedSource ++ "\x7b% endif %\x7d")).1.toOption.map
        (fun t => (Node.landmarksOfBody t.body).length) = some 3 := by decide +kernel
    cases ht : (({} : Environment).parse {} none (unclosedSource ++ "\x7b% endif %\x7d")).1 with
    | error e =>
      rw [ht] at hlength
      cases hlength
    | ok t =>
      rw [ht] at hlength
      exact ⟨t, rfl, Option.some.inj hlength,
        (lines_exact {} {} none (unclosedSource ++ "\x7b% endif %\x7d") {} rfl rfl (by decide)).2.1 t ht⟩

end Stencil
