import Stencil.Markup.Segment
import Stencil.Proofs.Text.Search

/-!
# Sources are cut without loss

* `Shifts s segments` says that taking the first segment off a source, over and over, ends with
  nothing left and gives these segments.
* `Formed segment later` says what a segment of a source looks like, given those that follow it.
* `scan_segmentation`: the segments of every source are found in this way, they are the source when
  put together, every one of them is formed, and the lines that come with them are counted from one.
-/

namespace Stencil

open Text

namespace Segment

/-! ## Openers and closers -/

/-- What a segment of a kind starts with. -/
def Kind.opener : Kind → List Char
  | .text => []
  | .tag => ['{', '%']
  | .output => ['{', '{']

/-- What a segment of a kind ends with when it is properly closed. -/
def Kind.closer : Kind → List Char
  | .text => []
  | .tag => ['%', '}']
  | .output => ['}', '}']

/-- The text holds no opener. -/
def IsPlain (s : List Char) : Prop := ¬ Kind.tag.opener <:+: s ∧ ¬ Kind.output.opener <:+: s

/-- The source starts with an opener of a kind. -/
def OpensWith (kind : Kind) (s : List Char) : Prop := kind ≠ .text ∧ kind.opener <+: s

theorem opensWith_of_ofMark? {c : Char} {kind : Kind} (hmark : Kind.ofMark? c = some kind)
    (rest : List Char) : OpensWith kind ('{' :: c :: rest) ∧ ['{', c] = kind.opener := by
  unfold Kind.ofMark? at hmark
  split at hmark
  · next hc =>
    cases hmark
    rw [beq_iff_eq.mp hc]
    exact ⟨⟨by decide, ⟨rest, rfl⟩⟩, rfl⟩
  · split at hmark
    · next hc =>
      cases hmark
      rw [beq_iff_eq.mp hc]
      exact ⟨⟨by decide, ⟨rest, rfl⟩⟩, rfl⟩
    · cases hmark

theorem isPlain_cons {c : Char} {s : List Char} (hs : IsPlain s)
    (hfront : c = '{' → ∀ d ∈ s.head?, Kind.ofMark? d = none) : IsPlain (c :: s) := by
  have hopener (d : Char) (hd : (Kind.ofMark? d).isSome) : ¬ ['{', d] <+: c :: s := by
    intro hprefix
    obtain ⟨rfl, rest, rfl⟩ := List.cons_prefix_cons.mp hprefix
    rw [hfront rfl d rfl] at hd
    cases hd
  unfold IsPlain
  rw [List.infix_cons_iff, List.infix_cons_iff, not_or, not_or]
  exact ⟨⟨hopener '%' (by decide), hs.1⟩, ⟨hopener '{' (by decide), hs.2⟩⟩

/-! ## Cutting one segment -/

/-- Text is cut in front of the first opener, or goes on to the end. -/
theorem splitText_spec (s : List Char) :
    (splitText s).1 ++ (splitText s).2 = s ∧ IsPlain (splitText s).1 ∧
      ((splitText s).2 = [] ∨ ∃ c rest, (splitText s).2 = '{' :: c :: rest ∧
        (Kind.ofMark? c).isSome) := by
  have hnil : IsPlain [] := by
    unfold IsPlain
    rw [List.infix_nil, List.infix_nil]
    exact ⟨by decide, by decide⟩
  fun_induction splitText s with
  | case1 => exact ⟨rfl, hnil, .inl rfl⟩
  | case2 c rest hmark => exact ⟨rfl, hnil, .inr ⟨c, rest, rfl, hmark⟩⟩
  | case3 c rest hmark text after hsplit ih =>
    rw [hsplit] at ih
    obtain ⟨happend, hplain, hafter⟩ := ih
    refine ⟨congrArg ('{' :: ·) happend, isPlain_cons hplain fun _ d hd => ?_, hafter⟩
    -- the text goes on with the character that is no mark, since that opens nothing itself
    dsimp only at happend hd hafter
    cases text with
    | nil => cases hd
    | cons e text =>
      obtain ⟨rfl, -⟩ := List.cons.inj happend
      cases hd
      simpa using hmark
  | case4 c rest hno text after hsplit ih =>
    rw [hsplit] at ih
    obtain ⟨happend, hplain, hafter⟩ := ih
    refine ⟨congrArg (c :: ·) happend, isPlain_cons hplain fun hc d hd => ?_, hafter⟩
    -- a brace is only passed over here when nothing follows it
    subst hc
    dsimp only at happend hd
    cases text with
    | nil => cases hd
    | cons e text => exact absurd happend.symm (hno e (text ++ after) rfl)

/-- A character in front of what is cut off leaves its ending as it is. -/
theorem suffix_of_map_cons {closer body after rest : List Char} {c : Char}
    {cut : Option (List Char × List Char)}
    (hmap : cut.map (fun (s, after) => (c :: s, after)) = some (body, after))
    (hcut : ∀ front, cut = some (front, after) → front ++ after = rest ∧ closer <:+ front) :
    body ++ after = c :: rest ∧ closer <:+ body := by
  obtain ⟨⟨front, back⟩, hrest, heq⟩ := Option.map_eq_some_iff.mp hmap
  cases heq
  obtain ⟨happend, hsuffix⟩ := hcut front hrest
  exact ⟨congrArg (c :: ·) happend, hsuffix.trans (List.suffix_cons c front)⟩

/-- What is cut off outside quotes ends with the closer. -/
theorem cutQuoted_eq_some {mark : Char} {quote : Option Char} {s body after : List Char}
    (hcut : cutQuoted mark quote s = some (body, after)) :
    body ++ after = s ∧ [mark, '}'] <:+ body := by
  fun_induction cutQuoted mark quote s generalizing body with
  | case1 => cases hcut
  | case2 c rest q ih => exact suffix_of_map_cons hcut fun _ => ih
  | case3 c rest hquote ih => exact suffix_of_map_cons hcut fun _ => ih
  | case4 c hquote after hmark =>
    cases hcut
    rw [beq_iff_eq.mp hmark]
    exact ⟨rfl, List.suffix_rfl⟩
  | case5 c rest hquote hno ih => exact suffix_of_map_cons hcut fun _ => ih

/-- What follows an opener is cut after a closer, unless there is none. -/
theorem cutCloser_spec (mark : Char) (s : List Char) :
    (cutCloser mark s).1 ++ (cutCloser mark s).2 = s ∧
      ([mark, '}'] <:+ (cutCloser mark s).1 ∨
        (cutCloser mark s).2 = [] ∧ ¬ [mark, '}'] <:+: (cutCloser mark s).1) := by
  unfold cutCloser
  cases hquoted : cutQuoted mark none s with
  | some parts =>
    obtain ⟨happend, hsuffix⟩ := cutQuoted_eq_some hquoted
    exact ⟨happend, .inl hsuffix⟩
  | none =>
    -- with an unbalanced quote, or all closers in quotes, the first closer of all counts
    cases hplain : cut [mark, '}'] s with
    | some parts =>
      obtain ⟨before, after⟩ := parts
      simp only [cutPlain, hplain, Option.map_some, Option.none_or, Option.getD_some]
      exact ⟨(cut_eq_some hplain).symm, .inl (List.suffix_append before _)⟩
    | none =>
      simp only [cutPlain, hplain, Option.map_none, Option.none_or, Option.getD_none]
      exact ⟨List.append_nil s, .inr ⟨trivial, not_infix_of_cut_eq_none hplain⟩⟩

/-- The first segment of a source that is not empty: it is a front of the source, and it is text up to
an opener or the end, or it starts with an opener and ends after a closer, or takes everything. -/
theorem next_spec {s : List Char} (hne : s ≠ []) :
    (next s).1.chars ++ (next s).2 = s ∧ (next s).1.chars ≠ [] ∧
      ((next s).1.kind = .text ∧ IsPlain (next s).1.chars ∧
          ((next s).2 = [] ∨ ∃ kind, OpensWith kind (next s).2) ∨
        OpensWith (next s).1.kind s ∧ ∃ body, (next s).1.chars = (next s).1.kind.opener ++ body ∧
          ((next s).1.kind.closer <:+ body ∨
            (next s).2 = [] ∧ ¬ (next s).1.kind.closer <:+: body)) := by
  obtain ⟨happend, hplain, hafter⟩ := splitText_spec s
  unfold next
  split
  · next c rest hsplit =>
    rw [hsplit] at happend hafter
    obtain ⟨c', rest', heq, hmark⟩ := hafter.resolve_left (List.cons_ne_nil _ _)
    cases heq
    obtain ⟨kind, hkind⟩ := Option.isSome_iff_exists.mp hmark
    obtain ⟨hopens, hopener⟩ := opensWith_of_ofMark? hkind rest
    have hcloser : kind.closer = [kind.closingMark, '}'] := by
      cases kind with
      | text => exact absurd rfl hopens.1
      | tag => rfl
      | output => rfl
    obtain ⟨hbody, hend⟩ := cutCloser_spec kind.closingMark rest
    rw [List.nil_append] at happend
    simp only [hkind, Option.getD_some]
    refine ⟨?_, List.cons_ne_nil _ _, .inr ⟨happend ▸ hopens, _, ?_, hcloser ▸ hend⟩⟩
    · rw [← happend, List.cons_append, List.cons_append, hbody]
    · rw [← hopener]
      rfl
  · next text after hno hsplit =>
    rw [hsplit] at happend hplain hafter
    refine ⟨happend, ?_, .inl ⟨rfl, hplain, ?_⟩⟩
    · -- without text in front the source would start with an opener
      rintro rfl
      rcases hafter with rfl | ⟨c, rest, rfl, -⟩
      · exact hne happend.symm
      · exact hno c rest rfl rfl
    · rcases hafter with hnil | ⟨c, rest, heq, hmark⟩
      · exact .inl hnil
      · obtain ⟨kind, hkind⟩ := Option.isSome_iff_exists.mp hmark
        refine .inr ⟨kind, ?_⟩
        rw [heq]
        exact (opensWith_of_ofMark? hkind rest).1

/-- A source that starts with an opener is cut there first. -/
theorem kind_next_of_opensWith {kind : Kind} {s : List Char} (hopens : OpensWith kind s) :
    (next s).1.kind = kind := by
  obtain ⟨hkind, rest, rfl⟩ := hopens
  cases kind with
  | text => exact absurd rfl hkind
  | tag => rfl
  | output => rfl

/-! ## Cutting a whole source -/

/-- Taking the first segment off a source, over and over, ends with nothing left. -/
inductive Shifts : List Char → List Segment → Prop where
  | done : Shifts [] []
  | shift {s : List Char} (hne : s ≠ []) {later : List Segment} (hlater : Shifts (next s).2 later) :
      Shifts s ((next s).1 :: later)

/-- What a segment of a source looks like, given the segments that follow it. -/
structure Formed (segment : Segment) (later : List Segment) : Prop where
  nonempty : segment.chars ≠ []
  /-- Text holds no opener, and no text follows it. -/
  text : segment.kind = .text →
    IsPlain segment.chars ∧ ∀ following ∈ later.head?, following.kind ≠ .text
  /-- A tag or output starts with its opener. Behind the opener it ends with its closer, or it is the
  last segment and no closer follows the opener. -/
  delimited : segment.kind ≠ .text → ∃ body, segment.chars = segment.kind.opener ++ body ∧
    (segment.kind.closer <:+ body ∨ later = [] ∧ ¬ segment.kind.closer <:+: body)

/-- Every segment takes at least one character, so that the scan finds all of them. -/
theorem shifts_scanWithin {fuel : Nat} {s : List Char} (hfuel : s.length ≤ fuel) :
    Shifts s (scanWithin fuel s) := by
  induction fuel generalizing s with
  | zero =>
    rw [List.eq_nil_of_length_eq_zero (Nat.le_zero.mp hfuel)]
    exact .done
  | succ fuel ih =>
    unfold scanWithin
    cases s with
    | nil => exact .done
    | cons c cs =>
      obtain ⟨happend, hnonempty, -⟩ := next_spec (List.cons_ne_nil c cs)
      have hlength := congrArg List.length happend
      have hpos := List.length_pos_iff.mpr hnonempty
      rw [List.length_append] at hlength
      exact .shift (List.cons_ne_nil c cs) (ih (by omega))

theorem Shifts.flatMap_chars {s : List Char} {segments : List Segment}
    (hshifts : Shifts s segments) : segments.flatMap (·.chars) = s := by
  induction hshifts with
  | done => rfl
  | shift hne hlater ih => rw [List.flatMap_cons, ih, (next_spec hne).1]

theorem Shifts.eq_nil {segments : List Segment} (hshifts : Shifts [] segments) : segments = [] := by
  cases hshifts with
  | done => rfl
  | shift hne => exact absurd rfl hne

/-- A source that starts with an opener is not cut into text first. -/
theorem Shifts.head_ne_text {s : List Char} {segments : List Segment} {kind : Kind}
    (hshifts : Shifts s segments) (hopens : OpensWith kind s) :
    ∀ first ∈ segments.head?, first.kind ≠ .text := by
  cases hshifts with
  | done => exact fun _ hfirst => nomatch hfirst
  | shift hne hlater =>
    intro first hfirst
    cases hfirst
    rw [kind_next_of_opensWith hopens]
    exact hopens.1

/-- Every segment that is taken off is formed. Induction on what follows the segments before it. -/
theorem Shifts.formed {s : List Char} {segments : List Segment} (hshifts : Shifts s segments)
    {before later : List Segment} {segment : Segment}
    (hplace : segments = before ++ segment :: later) : Formed segment later := by
  induction hshifts generalizing before with
  | done => cases before <;> cases hplace
  | @shift s hne others hlater ih =>
    cases before with
    | cons first before => exact ih (List.cons.inj hplace).2
    | nil =>
      obtain ⟨rfl, rfl⟩ := List.cons.inj hplace
      obtain ⟨-, hnonempty, ⟨htext, hplain, hafter⟩ | ⟨hopens, body, hchars, hend⟩⟩ := next_spec hne
      · refine ⟨hnonempty, fun _ => ⟨hplain, ?_⟩, fun hkind => absurd htext hkind⟩
        rcases hafter with hnil | ⟨kind, hopens⟩
        · rw [hnil] at hlater
          rw [hlater.eq_nil]
          exact fun _ hfirst => nomatch hfirst
        · exact hlater.head_ne_text hopens
      · refine ⟨hnonempty, fun htext => absurd htext hopens.1, fun _ => ⟨body, hchars, ?_⟩⟩
        refine hend.imp_right fun ⟨hnil, hcloser⟩ => ⟨?_, hcloser⟩
        rw [hnil] at hlater
        exact hlater.eq_nil

/-! ## Lines -/

/-- How many lines end within segments. -/
def lineBreaks (segments : List Placed) : Nat := (segments.flatMap (·.segment.chars)).count '\n'

theorem map_segment_place (line : Option Nat) (segments : List Segment) :
    (place line segments).map (·.segment) = segments := by
  induction segments generalizing line with
  | nil => rfl
  | cons segment later ih => exact congrArg (segment :: ·) (ih _)

/-- A segment is placed where the segments before it end. -/
theorem place_eq_append {line : Nat} {segments : List Segment} {before later : List Placed}
    {p : Placed} (hplace : place (some line) segments = before ++ p :: later) :
    p.line = some (line + lineBreaks before) ∧
      p.next = some (line + lineBreaks before + p.segment.chars.count '\n') := by
  induction before generalizing line segments with
  | nil =>
    cases segments with
    | nil => cases hplace
    | cons segment others =>
      obtain ⟨rfl, -⟩ := List.cons.inj hplace
      exact ⟨rfl, rfl⟩
  | cons first before ih =>
    cases segments with
    | nil => cases hplace
    | cons segment others =>
      obtain ⟨rfl, hrest⟩ := List.cons.inj hplace
      obtain ⟨hline, hnext⟩ := ih hrest
      rw [hline, hnext]
      simp only [lineBreaks, List.flatMap_cons, List.count_append, Option.some.injEq]
      omega

/-- **Sources are cut without loss.** The segments of a source are what is taken off it until nothing
is left. Put together they are the source, and each of them is formed. When lines are counted, a
segment starts on the line after all line breaks before it, and the line that follows it counts its own
line breaks as well. -/
theorem scan_segmentation (s : List Char) :
    Shifts s (scan s) ∧ (scan s).flatMap (·.chars) = s ∧
      (∀ before segment later, scan s = before ++ segment :: later → Formed segment later) ∧
      (∀ numbered, (scanPlaced numbered s).map (·.segment) = scan s) ∧
      ∀ before p later, scanPlaced true s = before ++ p :: later →
        p.line = some (1 + lineBreaks before) ∧ p.next = some (1 + lineBreaks (before ++ [p])) := by
  have hshifts : Shifts s (scan s) := shifts_scanWithin (Nat.le_refl s.length)
  refine ⟨hshifts, hshifts.flatMap_chars, fun _ _ _ => hshifts.formed,
    fun _ => map_segment_place _ _, fun before p later hplace => ?_⟩
  obtain ⟨hline, hnext⟩ := place_eq_append hplace
  refine ⟨hline, hnext.trans ?_⟩
  simp only [lineBreaks, List.flatMap_append, List.flatMap_cons, List.flatMap_nil, List.append_nil,
    List.count_append, Nat.add_assoc]

/-- A closer inside quotes does not count, and one that shares a brace with its opener is none. -/
example : (scan "a\x7b\x7b '\x7d\x7d' \x7d\x7d\x7b%\x7d".toList).map (·.text) =
    ["a", "\x7b\x7b '\x7d\x7d' \x7d\x7d", "\x7b%\x7d"] := by decide

end Segment

end Stencil
