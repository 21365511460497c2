import Stencil.Proofs.Diagnostic.Snippets
import Stencil.Proofs.Tree.ExactLines

/-!
# The line that a failed parse shows

A template that cannot be read fails with the line of the segment that is to blame. The diagnostic of the
failure has one marked row, which has the number of that line and the line that a reader counts so
(`snippet_shows_line`). It is the line of the segment if the lines up to it hold no boundaries but
newlines: other boundaries are counted by the reader, and not by the lines of segments.
-/

namespace Stencil

open Parsing
open Segment (lineBreaks scanPlaced)
open Text (newlineLines dropReturn Unbroken)

/-! ## Failures without a source -/

/-- As far as the failure tells of the template, it has no source yet. -/
def Failure.Sourceless (e : Failure) : Prop := ∀ t, e = .template t → t.source = none

/-- Nothing that a segment is refused for has a source. -/
theorem safeSegment_sourceless (options : ParseOptions) (p : Segment.Placed) :
    SafeSegment options p Failure.Unplaced Failure.Sourceless fun _ => True where
  texts := safeTexts_unplaced
  output _ := trivial
  tag _ := trivial
  failure {e} he := by
    intro t ht
    obtain ⟨c, rfl⟩ := he t ht
    rfl
  placed {e} he markup := by
    rintro _ ⟨⟩
    obtain ⟨c, rfl⟩ := he e rfl
    rfl
  nesting := by
    rintro _ ⟨⟩
    rfl

theorem Failure.Sourceless.placed {e : Failure} (he : e.Sourceless) (line : Option Nat)
    (name : Option String) : (placed line name e).Sourceless := by
  cases e with
  | host e => exact he
  | template e =>
    rintro _ ⟨⟩
    exact he e rfl

theorem sourceless_of_parseBody {options : ParseOptions} {source : List Char} :
    FailsOnly Failure.Sourceless (parseBody options source).outcome := by
  rw [outcome_parseBody]
  split
  · refine failsOnly_error ?_
    rintro _ ⟨⟩
    rfl
  · dsimp only
    refine FailsOnly.bind (fun e he => ?_) fun b _ => ?_
    · obtain ⟨before, p, later, b, f, -, -, hfails, rfl⟩ := Builder.exists_of_takeAll_eq_error he
      exact ((safeSegment_sourceless options p).take b f hfails).placed _ _
    · refine FailsOnly.mapError (fun f hf => ?_) fun f hf => Failure.Sourceless.placed hf _ _
      obtain ⟨tag, around, -, rfl⟩ := Builder.finish_eq_error hf
      rintro _ ⟨⟩
      rfl

/-! ## The place of a failure -/

/-- A failure that has a line is that of a segment: the source goes on behind as many newlines as the
line says. -/
theorem exists_place_of_parseBody {options : ParseOptions} {source : List Char} {e : TemplateError}
    {n : Int} (hnumbered : options.numbered = true)
    (hfails : (parseBody options source).outcome = .error (.template e)) (hline : e.line = some n) :
    ∃ before after : List Char, source = before ++ after ∧ after ≠ [] ∧ n = before.count '\n' + 1 := by
  have hdepth : 1 ≤ options.maxDepth := by
    by_contra hlow
    rw [outcome_parseBody, if_pos (by omega)] at hfails
    cases hfails
    cases hline
  obtain ⟨before, p, later, hsplit, hplace, -⟩ := exists_fault_of_parseBody hnumbered hdepth hfails
  rw [hnumbered] at hsplit
  have hsegments : (before ++ p :: later).map (·.segment) = Segment.scan source := by
    rw [← hsplit]
    exact Segment.map_segment_place _ _
  have hshifts : Segment.Shifts source (Segment.scan source) := Segment.shifts_scanWithin (Nat.le_refl _)
  have hplaced : Segment.scan source = before.map (·.segment) ++ p.segment :: later.map (·.segment) := by
    rw [← hsegments, List.map_append, List.map_cons]
  refine ⟨before.flatMap (·.segment.chars), (p :: later).flatMap (·.segment.chars), ?_, ?_, ?_⟩
  · have hchars := hshifts.flatMap_chars
    rw [← hsegments, List.flatMap_map, List.flatMap_append] at hchars
    exact hchars.symm
  · rw [List.flatMap_cons]
    exact List.append_ne_nil_of_left_ne_nil (hshifts.formed hplaced).nonempty _
  · rw [hline, Segment.line_of_scanPlaced_eq_append hsplit] at hplace
    have hn : n = ((1 + lineBreaks before : Nat) : Int) := Option.some.inj hplace
    rw [hn, lineBreaks]
    omega

/-- **A failed parse shows the line of the segment to blame.** When lines are counted and the failure has a
line, the diagnostic holds a snippet with one marked row. The row has the number of the line, and the
source has a line of that number, with newlines counted. What the row shows is that line without a carriage
return at its end, if up to there newlines are the only line boundaries of the source; and only then do the
numbers of a snippet agree with those of the source up to the line. -/
theorem snippet_shows_line (env : Environment) (overrides : ParseOverrides) (name : Option String)
    (source : String) (options : ParseOptions)
    (hoptions : env.parseOptions overrides name = .ok options) (hnumbered : options.numbered = true)
    (e : TemplateError) (hfails : (env.parse overrides name source).1 = .error (.template e)) (n : Int)
    (hline : e.line = some n) (colour : Bool) :
    ∃ (i : Nat) (line shown : List Char), n = i + 1 ∧ (newlineLines source.toList)[i]? = some line ∧
      (∃ front back, e.diagnostic colour =
        "\n".intercalate (front ++ (Snippet.build source n 2).text colour :: back)) ∧
      Snippet.markedRows colour ((Snippet.build source n 2).text colour) =
        [(gutterLine colour n (String.ofList shown) true).toList] ∧
      ((∀ l ∈ (newlineLines source.toList).take (i + 1), Unbroken l) → shown = dropReturn line) ∧
      ((∀ j ≤ i, (Text.lines source.toList)[j]? = ((newlineLines source.toList)[j]?).map dropReturn) ↔
        ∀ l ∈ (newlineLines source.toList).take (i + 1), Unbroken l) := by
  obtain ⟨f, hf, heq⟩ := Environment.error_of_parse hoptions hfails
  cases f with
  | host f => cases heq
  | template f =>
    cases heq
    obtain ⟨before, after, hsource, hafter, rfl⟩ := exists_place_of_parseBody hnumbered hf hline
    have hne : source.toList ≠ [] := by
      rw [hsource]
      exact List.append_ne_nil_of_right_ne_nil _ hafter
    -- there are that many lines in both ways of counting
    have hbefore : before.count '\n' ≤ source.toList.dropLast.count '\n' := by
      rw [hsource, List.dropLast_append_of_ne_nil hafter, List.count_append]
      omega
    have hseen : before.count '\n' < (Text.lines source.toList).length :=
      Nat.lt_of_le_of_lt hbefore (Text.count_newline_lt_length_linesFrom hne [])
    have hcounted : before.count '\n' < (newlineLines source.toList).length := by
      rw [Text.length_newlineLines, hsource, List.count_append]
      omega
    have hagree := Text.lines_agree_iff hseen
    refine ⟨before.count '\n', (newlineLines source.toList)[before.count '\n'],
      (Text.lines source.toList)[before.count '\n'], rfl, List.getElem?_eq_getElem hcounted, ?_, ?_,
      fun hfront => ?_, hagree⟩
    · refine TemplateError.exists_diagnostic_eq ?_ ?_ hline (by omega) colour
      · rw [sourceless_of_parseBody _ hf f rfl]
        rfl
      · rintro rfl
        exact hne rfl
    · rw [Snippet.markedRows_text (Snippet.newline_not_mem_build _ _ _)]
      have hrow := Snippet.filter_build (List.getElem?_eq_getElem hseen) 2
      exact congrArg _ hrow
    · have hshown := hagree.mpr hfront _ (Nat.le_refl _)
      rw [List.getElem?_eq_getElem hseen, List.getElem?_eq_getElem hcounted] at hshown
      exact Option.some.inj hshown

/-- An end tag without a block, behind a line that ends with a carriage return and a newline. -/
def strayEnd : String := "one\r\n\x7b% endif %\x7d"

/-- What a stray end tag on the second line of a source fails with. -/
def strayEndError (source : String) : TemplateError :=
  { (Complaint.outerTag "endif").toError with line := some 2, source := some source }

/-- The marked row shows the end tag. -/
theorem snippet_shows_line_strayEnd :
    (({} : Environment).parseOptions {} none = .ok {} ∧ ({} : ParseOptions).numbered = true ∧
      (({} : Environment).parse {} none strayEnd).1 = .error (.template (strayEndError strayEnd)) ∧
      ∀ l ∈ (newlineLines strayEnd.toList).take 2, Unbroken l) ∧
    Snippet.markedRows false ((Snippet.build strayEnd 2 2).text false) =
      [">  2 | \x7b% endif %\x7d".toList] := by
  have hfails : (({} : Environment).parse {} none strayEnd).1.map (fun _ => ()) =
      .error (.template (strayEndError strayEnd)) := by decide +kernel
  have hfails := map_eq_error_iff.mp hfails
  have hlines : newlineLines strayEnd.toList = ["one\r".toList, "\x7b% endif %\x7d".toList] := by
    decide +kernel
  have hfront : ∀ l ∈ (newlineLines strayEnd.toList).take 2, Unbroken l := by
    rw [hlines]
    unfold Unbroken
    decide
  refine ⟨⟨rfl, rfl, hfails, hfront⟩, ?_⟩
  obtain ⟨i, line, shown, hi, hline, -, hmarked, hshown, -⟩ :=
    snippet_shows_line {} {} none strayEnd {} rfl rfl _ hfails 2 rfl false
  obtain rfl : i = 1 := by omega
  rw [hlines] at hline
  cases hline
  rw [hmarked, hshown hfront]
  decide

/-- Behind a form feed the reader counts one line more. -/
theorem snippet_shows_other_line :
    (({} : Environment).parse {} none "one\x0ctwo\n\x7b% endif %\x7d").1 =
        .error (.template (strayEndError "one\x0ctwo\n\x7b% endif %\x7d")) ∧
      (newlineLines "one\x0ctwo\n\x7b% endif %\x7d".toList)[1]? = some "\x7b% endif %\x7d".toList ∧
      Snippet.markedRows false ((Snippet.build "one\x0ctwo\n\x7b% endif %\x7d" 2 2).text false) =
        [">  2 | two".toList] := by
  have hfails : (({} : Environment).parse {} none "one\x0ctwo\n\x7b% endif %\x7d").1.map
      (fun _ => ()) = .error (.template (strayEndError "one\x0ctwo\n\x7b% endif %\x7d")) := by
    decide +kernel
  exact ⟨map_eq_error_iff.mp hfails, by decide +kernel, by decide +kernel⟩

end Stencil
