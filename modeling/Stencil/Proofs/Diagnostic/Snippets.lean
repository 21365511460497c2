import Stencil.Diagnostic.TemplateError
import Stencil.Proofs.Text.Lines

/-!
# What a snippet marks

The lines of a snippet are numbered, and the row of the error line carries a mark. As long as the source
has a line of that number, there is exactly one such row (`filter_build`, `markedRows_text`), and the
diagnostic of an error holds the rows of its snippet (`exists_diagnostic_eq`).
-/

namespace Stencil

open Style
open Text (newlineLines)

/-! ## Rows -/

/-- What a marked row starts with. -/
def Snippet.mark (colour : Bool) : String :=
  (if colour then String.join (Role.gutter.colours.map Colour.sequence) else "") ++ ">"

/-- The rows of a text that are marked. -/
def Snippet.markedRows (colour : Bool) (text : String) : List (List Char) :=
  (newlineLines text.toList).filter fun row => (mark colour).toList.isPrefixOf row

/-- A row is marked if its line is the offending one. -/
theorem isPrefixOf_gutterLine (colour : Bool) (line : Int) (content : String) (offending : Bool) :
    (Snippet.mark colour).toList.isPrefixOf (gutterLine colour line content offending).toList =
      offending := by
  cases colour <;> cases offending <;>
    simp [Snippet.mark, gutterLine, style, paint, Role.colours, Colour.sequence, List.isPrefixOf]

theorem isPrefixOf_gutterRule (colour : Bool) :
    (Snippet.mark colour).toList.isPrefixOf (gutterRule colour).toList = false := by
  cases colour <;> decide

/-- Numbers are written with digits and a minus sign. -/
theorem not_mem_toString {c : Char} (hdigit : c.isDigit = false) (hminus : c ≠ '-') (n : Int) :
    c ∉ (toString n).toList := by
  have hdigits (k : Nat) : c ∉ k.repr.toList := by
    intro hmem
    rw [Nat.toList_repr] at hmem
    exact absurd (Nat.isDigit_of_mem_toDigits (by decide) (by decide) hmem) (by rw [hdigit]; decide)
  rw [Int.toString_eq_repr, Int.repr_eq_if]
  split
  · exact hdigits _
  · rw [String.toList_append, List.mem_append]
    exact fun hmem => hmem.elim (fun h => hminus (List.mem_singleton.mp h)) (hdigits _)

theorem newline_not_mem_gutterRule (colour : Bool) : '\n' ∉ (gutterRule colour).toList := by
  cases colour <;> decide

theorem newline_not_mem_gutterLine {content : String} (hcontent : '\n' ∉ content.toList)
    (colour : Bool) (line : Int) (offending : Bool) :
    '\n' ∉ (gutterLine colour line content offending).toList := by
  have hnumber := not_mem_toString (c := '\n') (by decide) (by decide) line
  cases colour <;> cases offending <;>
    simp [gutterLine, gutterNumber, style, paint, Role.colours, Colour.sequence, hcontent] <;>
    simpa using hnumber

namespace Snippet

/-- **The marked rows of a snippet are those of its error line.** -/
theorem markedRows_text {snippet : Snippet} (hlines : ∀ l ∈ snippet.lines, '\n' ∉ l.2.toList)
    (colour : Bool) :
    markedRows colour (snippet.text colour) =
      (snippet.lines.filter fun l => l.1 == snippet.errorLine).map fun l =>
        (gutterLine colour l.1 l.2 true).toList := by
  have hrows : newlineLines (snippet.text colour).toList =
      (gutterRule colour).toList :: (snippet.lines.map fun l =>
        (gutterLine colour l.1 l.2 (l.1 == snippet.errorLine)).toList) ++
          [(gutterRule colour).toList] := by
    have htext : (snippet.text colour).toList = ['\n'].intercalate
        ((gutterRule colour).toList :: (snippet.lines.map fun l =>
          (gutterLine colour l.1 l.2 (l.1 == snippet.errorLine)).toList) ++
            [(gutterRule colour).toList]) := by
      simp [text, Function.comp_def]
    rw [newlineLines, htext]
    refine List.splitOn_intercalate '\n' (fun row hrow => ?_) (by simp)
    simp only [List.cons_append, List.mem_cons, List.mem_append, List.mem_map, List.not_mem_nil,
      or_false] at hrow
    rcases hrow with rfl | ⟨l, hl, rfl⟩ | rfl
    · exact newline_not_mem_gutterRule colour
    · exact newline_not_mem_gutterLine (hlines l hl) colour _ _
    · exact newline_not_mem_gutterRule colour
  rw [markedRows, hrows, List.filter_append, List.filter_cons, List.filter_cons, List.filter_nil,
    isPrefixOf_gutterRule, List.filter_map]
  simp only [Bool.false_eq_true, if_false, List.append_nil, Function.comp_def, isPrefixOf_gutterLine]
  exact List.map_congr_left fun l hl => by rw [(List.mem_filter.mp hl).2]

/-! ## The lines of a snippet -/

/-- Items are numbered once each. -/
theorem filter_zipIdx {α : Type} {xs : List α} {k : Nat} {a : α} (ha : xs[k]? = some a) :
    (xs.zipIdx.filter fun x => x.2 == k) = [(a, k)] := by
  obtain ⟨hk, rfl⟩ := List.getElem?_eq_some_iff.mp ha
  have hlength : (xs.take k).length = k := List.length_take_of_le (Nat.le_of_lt hk)
  have hfront : ((xs.take k).zipIdx.filter fun x => x.2 == k) = [] := by
    refine List.filter_eq_nil_iff.mpr fun x hx => ?_
    have hlt := List.snd_lt_of_mem_zipIdx hx
    simp only [beq_iff_eq]
    omega
  have hback : (((xs.drop (k + 1)).zipIdx (k + 1)).filter fun x => x.2 == k) = [] := by
    refine List.filter_eq_nil_iff.mpr fun x hx => ?_
    have hle := List.le_snd_of_mem_zipIdx hx
    simp only [beq_iff_eq]
    omega
  have hsplit : xs.zipIdx = (xs.take k).zipIdx ++ (xs[k], k) :: (xs.drop (k + 1)).zipIdx (k + 1) := by
    have hparts : (xs.take k ++ xs[k] :: xs.drop (k + 1)).zipIdx = xs.zipIdx := by
      rw [← List.drop_eq_getElem_cons hk, List.take_append_drop]
    rw [← hparts, List.zipIdx_append, List.zipIdx_cons, hlength, Nat.zero_add]
  rw [hsplit, List.filter_append, hfront, List.filter_cons, if_pos (by simp), hback]
  rfl

/-- **A snippet has one line of the number of the error line**, if the source has such a line. -/
theorem filter_build {source : String} {i : Nat} {shown : List Char}
    (hshown : (Text.lines source.toList)[i]? = some shown) (around : Nat) :
    ((build source (i + 1) around).lines.filter fun l => l.1 == ((i : Int) + 1)) =
      [((i : Int) + 1, String.ofList shown)] := by
  obtain ⟨hi, -⟩ := List.getElem?_eq_some_iff.mp hshown
  have hstart : max 0 ((i : Int) + 1 - 1 - around) = ((i - around : Nat) : Int) := by omega
  have hstop : min ((Text.lines source.toList).length : Int) (i + 1 + around) =
      ((min (Text.lines source.toList).length (i + 1 + around) : Nat) : Int) := by omega
  -- the line stands behind at most `around` others that are chosen
  have hplace : (((Text.lines source.toList).drop (i - around)).take
      (min (Text.lines source.toList).length (i + 1 + around) - (i - around)))[i - (i - around)]? =
        some shown := by
    rw [List.getElem?_take_of_lt (by omega), List.getElem?_drop, ← hshown]
    congr 1
    omega
  unfold build
  dsimp only
  rw [hstart, hstop, Int.toNat_natCast, Int.toNat_sub, List.filter_map]
  have hnumber : (fun l : List Char × Nat => ((i - around : Nat) : Int) + (l.2 : Int) + 1 == (i : Int) + 1) =
      fun l => l.2 == i - (i - around) := by
    funext l
    rw [Bool.eq_iff_iff, beq_iff_eq, beq_iff_eq]
    omega
  simp only [Function.comp_def, hnumber, filter_zipIdx hplace, List.map_cons, List.map_nil]
  congr 2
  omega

/-- The lines of a snippet are lines of its source. -/
theorem exists_line_of_mem_build {source : String} {line around : Int} {l : Int × String}
    (hl : l ∈ (build source line around).lines) :
    ∃ row ∈ Text.lines source.toList, l.2.toList = row := by
  obtain ⟨⟨row, k⟩, hrow, rfl⟩ := List.mem_map.mp hl
  exact ⟨row, List.mem_of_mem_drop (List.mem_of_mem_take (List.fst_mem_of_mem_zipIdx hrow)),
    String.toList_ofList⟩

/-- The lines of a snippet hold no newline. -/
theorem newline_not_mem_build (source : String) (line around : Int) :
    ∀ l ∈ (build source line around).lines, '\n' ∉ l.2.toList := by
  intro l hl hmem
  obtain ⟨row, hrow, heq⟩ := exists_line_of_mem_build hl
  rw [heq] at hmem
  exact absurd (Text.isLineBreak_of_mem_lines row hrow _ hmem) (by decide)

end Snippet

/-- **The diagnostic of an error holds the rows of its snippet**, if it has a source that is not empty and
a line. -/
theorem TemplateError.exists_diagnostic_eq {e : TemplateError} {source : String} {line : Int}
    (hsource : e.source = some source) (hne : source ≠ "") (hline : e.line = some line) (hzero : line ≠ 0)
    (colour : Bool) :
    ∃ front back, e.diagnostic colour =
      "\n".intercalate (front ++ (Snippet.build source line 2).text colour :: back) := by
  have hpresent : present e.source = some source := by
    rw [hsource]
    simp [present, hne]
  unfold diagnostic
  dsimp only
  rw [hpresent, hline]
  dsimp only
  rw [if_neg (by simpa using hzero)]
  exact ⟨_, _, congrArg _ (by rw [List.append_assoc]; rfl)⟩

end Stencil
