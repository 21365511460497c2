import Stencil.Proofs.Markup.Segmentation

/-!
# Where a source is cut

Whether a source is cut at a place depends on everything in front of it, and sometimes on what follows:
a tag or output without a closer outside quotes goes on behind the place.

* `CutBehind front rest`: of the source `front ++ rest`, a segment ends where `rest` starts, which is then
  cut as if it stood alone.
* `brace_at_cut`: a brace closes or opens at every cut.
* `cutBehind_of_isClosed`: if the tags and outputs of `front` have their closers outside quotes, `front` is
  cut in the same way whatever follows it.
-/

namespace Stencil

open Text

namespace Segment

/-! ## Segments in turn -/

theorem Shifts.unique {s : List Char} {segments others : List Segment} (hshifts : Shifts s segments)
    (hothers : Shifts s others) : segments = others := by
  induction hshifts generalizing others with
  | done => exact hothers.eq_nil.symm
  | shift hne _ ih =>
    cases hothers with
    | done => exact absurd rfl hne
    | shift _ hlater => rw [ih hlater]

theorem Shifts.scan_eq {s : List Char} {segments : List Segment} (hshifts : Shifts s segments) :
    scan s = segments :=
  (scan_segmentation s).1.unique hshifts

/-- A source that is not empty is cut into its first segment and those of what follows it. -/
theorem scan_of_ne_nil {s : List Char} (hne : s ≠ []) : scan s = (next s).1 :: scan (next s).2 :=
  (Shifts.shift hne (scan_segmentation _).1).scan_eq

theorem scan_of_next {s rest : List Char} {segment : Segment} (hne : s ≠ [])
    (hnext : next s = (segment, rest)) : scan s = segment :: scan rest := by
  rw [scan_of_ne_nil hne, hnext]

/-- Segments are placed behind those before them. -/
theorem place_append (line : Option Nat) (before after : List Segment) :
    place line (before ++ after) =
      place line before ++ place (line.map (· + (before.flatMap (·.chars)).count '\n')) after := by
  induction before generalizing line with
  | nil => cases line <;> rfl
  | cons segment before ih =>
    have hline : (line.map (· + segment.chars.count '\n')).map
        (· + (before.flatMap (·.chars)).count '\n') =
          line.map (· + ((segment :: before).flatMap (·.chars)).count '\n') := by
      rw [List.flatMap_cons, List.count_append, Option.map_map]
      cases line with
      | none => rfl
      | some n => exact congrArg some (Nat.add_assoc ..)
    rw [List.cons_append, place, place, ih, hline, List.cons_append]

/-- Of the source `front ++ rest`, a segment ends where `rest` starts, and `rest` is cut as if it stood
alone. -/
def CutBehind (front rest : List Char) : Prop :=
  ∃ segments, scan (front ++ rest) = segments ++ scan rest ∧ segments.flatMap (·.chars) = front

/-- The end of a source is the end of a segment. -/
theorem cutBehind_nil (front : List Char) : CutBehind front [] := by
  refine ⟨scan front, ?_, (scan_segmentation front).2.1⟩
  rw [List.append_nil]
  exact (List.append_nil _).symm

/-! ## Braces -/

/-- What a kind of segment closes with ends with a brace. -/
theorem getLast?_closer {kind : Kind} (hkind : kind ≠ .text) : kind.closer.getLast? = some '}' := by
  cases kind with
  | text => exact absurd rfl hkind
  | tag => rfl
  | output => rfl

theorem head?_opener {kind : Kind} (hkind : kind ≠ .text) : kind.opener.head? = some '{' := by
  cases kind with
  | text => exact absurd rfl hkind
  | tag => rfl
  | output => rfl

/-- **Where a source is cut, a brace closes in front or opens behind.** -/
theorem brace_at_cut {s : List Char} {before after : List Segment} (hscan : scan s = before ++ after)
    (hbefore : before ≠ []) (hafter : after ≠ []) :
    (before.flatMap (·.chars)).getLast? = some '}' ∨ (after.flatMap (·.chars)).head? = some '{' := by
  have hformed := (scan_segmentation s).2.2.1
  obtain ⟨first, later, rfl⟩ := List.exists_cons_of_ne_nil hafter
  obtain ⟨others, last, rfl⟩ := (List.eq_nil_or_concat' before).resolve_left hbefore
  have hlast : Formed last (first :: later) := hformed others last (first :: later) (by rw [hscan]; simp)
  by_cases hkind : last.kind = .text
  · -- behind text an opener stands
    have hfirst : first.kind ≠ .text := (hlast.text hkind).2 first rfl
    obtain ⟨body, hchars, -⟩ := (hformed (others ++ [last]) first later hscan).delimited hfirst
    refine .inr ?_
    rw [List.flatMap_cons, hchars, List.head?_append, List.head?_append, head?_opener hfirst]
    rfl
  · -- a tag or output that is not the last segment is closed
    obtain ⟨body, hchars, hcloser | ⟨hnone, -⟩⟩ := hlast.delimited hkind
    · obtain ⟨front, rfl⟩ := hcloser
      refine .inl ?_
      rw [List.flatMap_append, List.flatMap_singleton, hchars, List.getLast?_append,
        List.getLast?_append, List.getLast?_append, getLast?_closer hkind]
      rfl
    · cases hnone

/-! ## Segments that are closed -/

/-- The segment is text, or its closer stands outside quotes. -/
def IsClosed (s : Segment) : Prop :=
  s.kind = .text ∨ cutQuoted s.kind.closingMark none (s.chars.drop 2) = some (s.chars.drop 2, [])

instance (s : Segment) : Decidable s.IsClosed := inferInstanceAs (Decidable (_ ∨ _))

theorem cutQuoted_append {mark : Char} {quote : Option Char} {s body after : List Char}
    (hcut : cutQuoted mark quote s = some (body, after)) (rest : List Char) :
    cutQuoted mark quote (s ++ rest) = some (body, after ++ rest) := by
  fun_induction cutQuoted mark quote s generalizing body with
  | case1 => cases hcut
  | case2 c s q ih =>
    obtain ⟨⟨front, back⟩, hfront, heq⟩ := Option.map_eq_some_iff.mp hcut
    cases heq
    rw [List.cons_append, cutQuoted, ih hfront]
    rfl
  | case3 c s hquote ih =>
    obtain ⟨⟨front, back⟩, hfront, heq⟩ := Option.map_eq_some_iff.mp hcut
    cases heq
    rw [List.cons_append]
    unfold cutQuoted
    dsimp only
    rw [if_pos hquote, ih hfront]
    rfl
  | case4 c hquote after hmark =>
    cases hcut
    rw [List.cons_append, List.cons_append]
    unfold cutQuoted
    dsimp only
    rw [if_neg hquote, hmark]
    rfl
  | case5 c s hquote hno ih =>
    obtain ⟨⟨front, back⟩, hfront, heq⟩ := Option.map_eq_some_iff.mp hcut
    cases heq
    -- behind the character something is left, so that the next one is the same
    obtain ⟨d, s, rfl⟩ : ∃ d later, s = d :: later := by
      cases s with
      | nil => cases hfront
      | cons d s => exact ⟨d, s, rfl⟩
    rw [List.cons_append]
    unfold cutQuoted
    dsimp only
    rw [if_neg hquote]
    split
    · next hmark heq =>
      obtain ⟨rfl, -⟩ := List.cons.inj heq
      exact absurd rfl (hno s hmark)
    · rw [ih hfront]
      rfl

theorem splitText_append {s : List Char} (hopener : (splitText s).2 ≠ []) (rest : List Char) :
    splitText (s ++ rest) = ((splitText s).1, (splitText s).2 ++ rest) := by
  fun_induction splitText s with
  | case1 => exact absurd rfl hopener
  | case2 c s hmark => rw [List.cons_append, List.cons_append, splitText, if_pos hmark]
  | case3 c s hmark text after hsplit ih =>
    rw [hsplit] at ih
    rw [List.cons_append, List.cons_append, splitText, if_neg hmark, ← List.cons_append, ih hopener]
  | case4 c s hno text after hsplit ih =>
    rw [hsplit] at ih
    -- an opener follows, so that the next character is the same
    obtain ⟨d, s, rfl⟩ : ∃ d later, s = d :: later := by
      cases s with
      | nil =>
        cases hsplit
        exact absurd rfl hopener
      | cons d s => exact ⟨d, s, rfl⟩
    rw [List.cons_append, splitText, ih hopener]
    rintro d' s' rfl heq
    obtain ⟨rfl, -⟩ := List.cons.inj heq
    exact hno d s rfl rfl

/-- What is closed outside quotes is cut in the same way whatever follows it. -/
theorem cutCloser_append {mark : Char} {s : List Char}
    (hclosed : cutQuoted mark none (cutCloser mark s).1 = some ((cutCloser mark s).1, []))
    (rest : List Char) :
    cutCloser mark (s ++ rest) = ((cutCloser mark s).1, (cutCloser mark s).2 ++ rest) := by
  have hquoted := cutQuoted_append hclosed ((cutCloser mark s).2 ++ rest)
  rw [← List.append_assoc, (cutCloser_spec mark s).1, List.nil_append] at hquoted
  rw [cutCloser, hquoted]
  rfl

/-- A closed segment in front of something is cut off in the same way whatever follows. -/
theorem next_append {s : List Char} (hclosed : (next s).1.IsClosed)
    (htext : (next s).1.kind = .text → (next s).2 ≠ []) (rest : List Char) :
    next (s ++ rest) = ((next s).1, (next s).2 ++ rest) := by
  have hafter := (splitText_spec s).2.2
  have hopener (hsome : (splitText s).2 ≠ []) := splitText_append hsome rest
  unfold next at hclosed htext ⊢
  generalize splitText s = parts at hafter hopener hclosed htext ⊢
  obtain ⟨text, after⟩ := parts
  dsimp only at hafter
  rcases hafter with hnone | ⟨c, tail, hafter, hmark⟩
  · -- without an opener the text is all there is
    subst hnone
    cases text <;> exact absurd rfl (htext rfl)
  · subst hafter
    rw [hopener (List.cons_ne_nil _ _)]
    cases text with
    | cons t text => rfl
    | nil =>
      obtain ⟨kind, hkind⟩ := Option.isSome_iff_exists.mp hmark
      simp only [List.cons_append, hkind, Option.getD_some] at hclosed ⊢
      have hquoted := hclosed.resolve_left (opensWith_of_ofMark? hkind tail).1.1
      rw [cutCloser_append hquoted]

/-- A source of closed segments that ends with a tag or an output is cut in the same way whatever follows
it. -/
theorem Shifts.append {s : List Char} {segments : List Segment} (hshifts : Shifts s segments)
    (hclosed : ∀ segment ∈ segments, segment.IsClosed)
    (hlast : ∀ last ∈ segments.getLast?, last.kind ≠ .text) (rest : List Char) :
    Shifts (s ++ rest) (segments ++ scan rest) := by
  induction hshifts with
  | done => exact (scan_segmentation rest).1
  | @shift s hne later hlater ih =>
    obtain ⟨hfirst, hlater'⟩ := List.forall_mem_cons.mp hclosed
    have hnext := next_append hfirst (fun hkind hnil => ?_) rest
    · have hlater'' : Shifts (next (s ++ rest)).2 (later ++ scan rest) := by
        rw [hnext]
        refine ih hlater' fun last hmem => hlast last ?_
        rw [List.getLast?_cons, Option.mem_def.mp hmem]
        rfl
      have hshift := Shifts.shift (List.append_ne_nil_of_left_ne_nil hne rest) hlater''
      rwa [hnext] at hshift
    · -- the last segment is not text
      rw [hnil] at hlater
      rw [hlater.eq_nil] at hlast
      exact hlast _ rfl hkind

/-- **A source of closed segments that ends with a tag or an output is cut behind it, whatever follows.** -/
theorem cutBehind_of_isClosed {front : List Char} (hclosed : ∀ segment ∈ scan front, segment.IsClosed)
    (hlast : ∀ last ∈ (scan front).getLast?, last.kind ≠ .text) (rest : List Char) :
    CutBehind front rest :=
  ⟨scan front, ((scan_segmentation front).1.append hclosed hlast rest).scan_eq,
    (scan_segmentation front).2.1⟩

end Segment

end Stencil
