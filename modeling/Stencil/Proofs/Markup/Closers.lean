import Mathlib.Order.Bounds.Basic
import Stencil.Proofs.Markup.Boundaries

/-!
# Closers outside quotes

* `ClosesAt closer quote s place`: the closer stands at a place of the text, and outside quotes.
* `Segment.ClosedCleanly`: the segment ends with the first closer outside quotes behind its opener.
  `Segment.ClosedPlainly`: it ends with the first closer of all.
* `segment_boundaries_are_local`: a source whose tags and outputs are closed cleanly, and that ends with one, is
  cut in the same way whatever follows it. What is not closed cleanly has no closer outside quotes behind its
  opener, and ends with the first closer of all, or with the source.
-/

namespace Stencil

open Text

namespace Segment

/-! ## Quotes -/

/-- The quote that is open behind a character: a quote opens where none is open, and the same one closes it. -/
def quoteBehind : Option Char → Char → Option Char
  | some q, c => if c == q then none else some q
  | none, c => if c == '\'' || c == '"' then some c else none

/-- The closer stands at a place of the text, and no quote is open there. `quote` is the quote that is open in
front of the text. -/
def ClosesAt (closer : List Char) (quote : Option Char) (s : List Char) (place : Nat) : Prop :=
  StandsAt closer s place ∧ (s.take place).foldl quoteBehind quote = none

variable {mark c : Char} {quote : Option Char} {closer s body after : List Char}

theorem closesAt_cons_succ {i : Nat} :
    ClosesAt closer quote (c :: s) (i + 1) ↔ ClosesAt closer (quoteBehind quote c) s i := Iff.rfl

theorem closesAt_zero : ClosesAt closer quote s 0 ↔ closer <+: s ∧ quote = none := Iff.rfl

/-- A closer is found where it stands outside quotes, and else behind the first character. -/
theorem cutQuoted_cons (hmark : quoteBehind none mark = none) :
    ClosesAt [mark, '}'] quote (c :: s) 0 ∧ cutQuoted mark quote (c :: s) = some ([mark, '}'], s.drop 1) ∨
      ¬ ClosesAt [mark, '}'] quote (c :: s) 0 ∧ cutQuoted mark quote (c :: s) =
        (cutQuoted mark (quoteBehind quote c) s).map fun (front, after) => (c :: front, after) := by
  cases quote with
  | some q => exact .inr ⟨fun h => (nomatch (closesAt_zero.mp h).2), rfl⟩
  | none =>
    have hcut := cutQuoted.eq_def mark none (c :: s)
    dsimp only at hcut
    rw [closesAt_zero, hcut]
    by_cases hquote : (c == '\'' || c == '"') = true
    · have hopens : quoteBehind none c = some c := if_pos hquote
      rw [hopens]
      refine .inr ⟨fun h => ?_, if_pos hquote⟩
      -- what opens a closer is no quote
      obtain ⟨rfl, -⟩ := List.cons_prefix_cons.mp h.1
      rw [hopens] at hmark
      cases hmark
    · have hpasses : quoteBehind none c = none := if_neg hquote
      dsimp only
      rw [hpasses, if_neg hquote]
      split
      · next after hmark =>
        rw [beq_iff_eq.mp hmark]
        exact .inl ⟨⟨⟨after, rfl⟩, rfl⟩, rfl⟩
      · next hno =>
        refine .inr ⟨fun h => ?_, rfl⟩
        obtain ⟨rfl, after, rfl⟩ := List.cons_prefix_cons.mp h.1
        exact hno after (beq_self_eq_true _) rfl

/-- **Where no closer is found outside quotes, none stands there.** -/
theorem not_closesAt_of_cutQuoted (hmark : quoteBehind none mark = none)
    (hcut : cutQuoted mark quote s = none) (i : Nat) : ¬ ClosesAt [mark, '}'] quote s i := by
  induction s generalizing quote i with
  | nil =>
    intro hcloses
    have hprefix := hcloses.1
    rw [StandsAt, List.drop_nil, List.prefix_nil] at hprefix
    cases hprefix
  | cons c s ih =>
    rcases cutQuoted_cons hmark with ⟨-, hfound⟩ | ⟨hnot, hlater⟩
    · rw [hfound] at hcut
      cases hcut
    · rw [hlater, Option.map_eq_none_iff] at hcut
      cases i with
      | zero => exact hnot
      | succ i =>
        rw [closesAt_cons_succ]
        exact ih hcut i

/-- **A text is cut behind the first closer outside quotes.** -/
theorem isLeast_of_cutQuoted (hmark : quoteBehind none mark = none)
    (hcut : cutQuoted mark quote s = some (body, after)) : ∃ place,
      IsLeast {i | ClosesAt [mark, '}'] quote s i} place ∧ body = s.take place ++ [mark, '}'] := by
  induction s generalizing quote body with
  | nil => cases hcut
  | cons c s ih =>
    rcases cutQuoted_cons hmark with ⟨hcloses, hfound⟩ | ⟨hnot, hlater⟩
    · rw [hfound] at hcut
      cases hcut
      exact ⟨0, ⟨hcloses, fun i _ => Nat.zero_le i⟩, rfl⟩
    · rw [hlater] at hcut
      obtain ⟨⟨front, back⟩, hfront, heq⟩ := Option.map_eq_some_iff.mp hcut
      cases heq
      obtain ⟨place, ⟨hcloses, hleast⟩, rfl⟩ := ih hfront
      refine ⟨place + 1, ⟨closesAt_cons_succ.mpr hcloses, fun i hi => ?_⟩, rfl⟩
      cases i with
      | zero => exact absurd hi hnot
      | succ i => exact Nat.succ_le_succ (hleast (closesAt_cons_succ.mp hi))

/-- Whether a closer stands at a place depends only on what ends with it. -/
theorem closesAt_left {front back : List Char} {i : Nat} (hi : i + closer.length ≤ front.length) :
    ClosesAt closer quote (front ++ back) i ↔ ClosesAt closer quote front i := by
  rw [ClosesAt, standsAt_left hi, List.take_append_of_le_length (Nat.le_of_add_right_le hi), ClosesAt]

/-! ## Segments that are closed cleanly -/

/-- The segment ends with the first closer outside quotes behind its opener. -/
def ClosedCleanly (segment : Segment) : Prop :=
  ∃ content, segment.chars = segment.kind.opener ++ (content ++ segment.kind.closer) ∧
    IsLeast {i | ClosesAt segment.kind.closer none (content ++ segment.kind.closer) i} content.length

/-- The segment ends with the first closer behind its opener, in quotes or not. -/
def ClosedPlainly (segment : Segment) : Prop :=
  ∃ content, segment.chars = segment.kind.opener ++ (content ++ segment.kind.closer) ∧
    IsLeast {i | StandsAt segment.kind.closer (content ++ segment.kind.closer) i} content.length

variable {kind : Kind} {segment : Segment} {rest : List Char}

theorem Kind.closer_eq (hkind : kind ≠ .text) : kind.closer = [kind.closingMark, '}'] := by
  cases kind with
  | text => exact absurd rfl hkind
  | tag => rfl
  | output => rfl

theorem Kind.quoteBehind_closingMark (kind : Kind) : quoteBehind none kind.closingMark = none := by
  cases kind <;> rfl

theorem Kind.drop_opener (hkind : kind ≠ .text) (s : List Char) : (kind.opener ++ s).drop 2 = s := by
  cases kind with
  | text => exact absurd rfl hkind
  | tag => rfl
  | output => rfl

/-- What is cut behind a closer outside quotes is closed cleanly. -/
theorem closedCleanly_of_cutQuoted (hkind : kind ≠ .text) {s front : List Char}
    (hcut : cutQuoted kind.closingMark none s = some (front, rest)) :
    (⟨kind, kind.opener ++ front⟩ : Segment).ClosedCleanly := by
  obtain ⟨hs, -⟩ := cutQuoted_eq_some hcut
  obtain ⟨place, ⟨hcloses, hleast⟩, hfront⟩ := isLeast_of_cutQuoted kind.quoteBehind_closingMark hcut
  have hplace : place ≤ s.length := by
    have hlength := hcloses.1.length_le
    rw [List.length_drop, List.length_cons] at hlength
    omega
  rw [← Kind.closer_eq hkind] at hcloses hleast hfront
  have hlength : front.length = place + kind.closer.length := by
    rw [hfront, List.length_append, List.length_take, Nat.min_eq_left hplace]
  -- up to the closer the same places close in front of the rest
  have hsame {i : Nat} (hi : i ≤ place) : ClosesAt kind.closer none s i ↔ ClosesAt kind.closer none front i := by
    rw [← hs]
    exact closesAt_left (by omega)
  refine ⟨s.take place, by rw [hfront], ?_⟩
  dsimp only
  rw [← hfront, List.length_take, Nat.min_eq_left hplace]
  refine ⟨(hsame le_rfl).mp hcloses, fun i hi => ?_⟩
  by_contra hlt
  exact hlt (hleast ((hsame (Nat.le_of_not_le hlt)).mpr hi))

theorem ClosedCleanly.isClosed (hclosed : segment.ClosedCleanly) : segment.IsClosed := by
  by_cases hkind : segment.kind = .text
  · exact .inl hkind
  · obtain ⟨content, hchars, hleast⟩ := hclosed
    have hmark := segment.kind.quoteBehind_closingMark
    rw [IsClosed, hchars, Kind.drop_opener hkind]
    rw [Kind.closer_eq hkind] at hleast ⊢
    cases hcut : cutQuoted segment.kind.closingMark none (content ++ [segment.kind.closingMark, '}']) with
    | none => exact absurd hleast.1 (not_closesAt_of_cutQuoted hmark hcut _)
    | some parts =>
      obtain ⟨front, after⟩ := parts
      obtain ⟨place, hplace, hfront⟩ := isLeast_of_cutQuoted hmark hcut
      obtain rfl := hplace.unique hleast
      rw [List.take_left] at hfront
      have hs := (cutQuoted_eq_some hcut).1
      rw [hfront, List.append_right_eq_self] at hs
      rw [hfront, hs]
      exact .inr rfl

/-! ## Segments that are not closed cleanly -/

/-- A source that starts with an opener is cut behind a closer. -/
theorem next_opener (hkind : kind ≠ .text) (s : List Char) : next (kind.opener ++ s) =
    (⟨kind, kind.opener ++ (cutCloser kind.closingMark s).1⟩, (cutCloser kind.closingMark s).2) := by
  cases kind with
  | text => exact absurd rfl hkind
  | tag => rfl
  | output => rfl

/-- A text is cut behind the first closer. -/
theorem isLeast_of_cut {before : List Char} (hcut : cut closer s = some (before, after)) :
    IsLeast {i | StandsAt closer (before ++ closer) i} before.length := by
  refine ⟨by simp [StandsAt], fun i hi => ?_⟩
  by_contra hlt
  have hshort : i + closer.length ≤ (before ++ closer).length := by
    rw [List.length_append]
    omega
  have hstands : StandsAt closer (before ++ closer ++ after) i := (standsAt_left hshort).mpr hi
  rw [← cut_eq_some hcut] at hstands
  exact not_standsAt_of_cut hcut i (Nat.lt_of_not_le hlt) hstands

/-- **What is not closed cleanly** has no closer outside quotes behind its opener, and ends with the first closer
of all, or with the source. -/
theorem next_of_not_closedCleanly {s : List Char} (hkind : kind ≠ .text)
    (hclosed : ¬ (next (kind.opener ++ s)).1.ClosedCleanly) :
    (∀ i, ¬ ClosesAt kind.closer none s i) ∧
      ((next (kind.opener ++ s)).1.ClosedPlainly ∨
        (next (kind.opener ++ s)).2 = [] ∧ ¬ kind.closer <:+: s) := by
  rw [next_opener hkind] at hclosed ⊢
  unfold cutCloser at hclosed ⊢
  cases hquoted : cutQuoted kind.closingMark none s with
  | some parts =>
    rw [hquoted] at hclosed
    exact absurd (closedCleanly_of_cutQuoted hkind hquoted) hclosed
  | none =>
    rw [Kind.closer_eq hkind]
    refine ⟨not_closesAt_of_cutQuoted kind.quoteBehind_closingMark hquoted, ?_⟩
    rw [Option.none_or, cutPlain]
    cases hplain : cut [kind.closingMark, '}'] s with
    | none => exact .inr ⟨rfl, not_infix_of_cut_eq_none hplain⟩
    | some parts =>
      obtain ⟨before, after⟩ := parts
      refine .inl ⟨before, ?_, ?_⟩ <;> dsimp only <;> rw [Kind.closer_eq hkind]
      · rfl
      · exact isLeast_of_cut hplain

/-- Every segment is the first one of what is left of the source. -/
theorem Shifts.exists_next {s : List Char} {segments before later : List Segment} (hshifts : Shifts s segments)
    (hplace : segments = before ++ segment :: later) :
    ∃ t, t ≠ [] ∧ (next t).1 = segment ∧ Shifts (next t).2 later := by
  induction hshifts generalizing before with
  | done => cases before <;> cases hplace
  | @shift s hne others hlater ih =>
    cases before with
    | cons first before => exact ih (List.cons.inj hplace).2
    | nil =>
      obtain ⟨rfl, rfl⟩ := List.cons.inj hplace
      exact ⟨s, hne, rfl, hlater⟩

/-! ## Lines behind a source -/

/-- The segment on a line further down. -/
def Placed.below (lines : Nat) (p : Placed) : Placed :=
  { p with line := p.line.map (· + lines), next := p.next.map (· + lines) }

theorem place_below (line : Option Nat) (lines : Nat) (segments : List Segment) :
    place (line.map (· + lines)) segments = (place line segments).map (Placed.below lines) := by
  induction segments generalizing line with
  | nil => rfl
  | cons segment later ih =>
    have hnext : (line.map (· + lines)).map (· + segment.chars.count '\n') =
        (line.map (· + segment.chars.count '\n')).map (· + lines) := by
      cases line with
      | none => rfl
      | some n => exact congrArg some (Nat.add_right_comm ..)
    rw [place, place, hnext, ih]
    rfl

end Segment

open Segment

/-- **Boundaries of segments are local.** A source whose tags and outputs are closed cleanly, and that ends with
one of them, is cut in the same way whatever follows it, and what follows it is cut as if it stood alone, on
lines further down. Behind the opener of a tag or output that is not closed cleanly, no closer stands outside
quotes in all of the source; it ends with the first closer of all, or with the source if there is none. -/
theorem segment_boundaries_are_local :
    (∀ front rest numbered, (∀ segment ∈ scan front, segment.kind ≠ .text → segment.ClosedCleanly) →
      (∀ last ∈ (scan front).getLast?, last.kind ≠ .text) →
      scanPlaced numbered (front ++ rest) =
        scanPlaced numbered front ++ (scanPlaced numbered rest).map (Placed.below (front.count '\n'))) ∧
    ∀ source before segment later, scan source = before ++ segment :: later → segment.kind ≠ .text →
      ¬ segment.ClosedCleanly →
      (∀ i, ¬ ClosesAt segment.kind.closer none ((segment.chars ++ later.flatMap (·.chars)).drop 2) i) ∧
      (segment.ClosedPlainly ∨ later = [] ∧ ¬ segment.kind.closer <:+: segment.chars.drop 2) := by
  refine ⟨fun front rest numbered hclean hlast => ?_, fun source before segment later hscan hkind hclosed => ?_⟩
  · obtain ⟨hshifts, hchars, -⟩ := scan_segmentation front
    have hclosed : ∀ segment ∈ scan front, segment.IsClosed := fun segment hsegment =>
      if hkind : segment.kind = .text then .inl hkind else (hclean segment hsegment hkind).isClosed
    rw [scanPlaced, (hshifts.append hclosed hlast rest).scan_eq, place_append, hchars, place_below]
    rfl
  · obtain ⟨t, hne, rfl, hlater⟩ := (scan_segmentation source).1.exists_next hscan
    obtain ⟨happend, -, ⟨htext, -⟩ | ⟨⟨-, rest, hrest⟩, -⟩⟩ := next_spec hne
    · exact absurd htext hkind
    · generalize hkind' : (next t).1.kind = kind at hkind hrest ⊢
      subst hrest
      obtain ⟨hnone, hends⟩ := next_of_not_closedCleanly hkind hclosed
      rw [hlater.flatMap_chars, happend, Kind.drop_opener hkind]
      refine ⟨hnone, hends.imp_right fun ⟨hnil, hcloser⟩ => ?_⟩
      rw [hnil] at hlater happend
      rw [List.append_nil] at happend
      rw [happend, Kind.drop_opener hkind]
      exact ⟨hlater.eq_nil, hcloser⟩

/-- A closer in quotes is passed over, and one behind a quote that is never closed is not. -/
theorem segment_boundaries_are_local_quotes :
    let front := "a\n\x7b\x7b '\x7d\x7d' \x7d\x7d".toList
    let rest := "b\n\x7b\x7b ' \x7d\x7d c".toList
    scanPlaced true (front ++ rest) =
        scanPlaced true front ++ (scanPlaced true rest).map (Placed.below (front.count '\n')) ∧
      (∀ i, ¬ ClosesAt Kind.output.closer none " ' \x7d\x7d c".toList i) ∧
      (⟨.output, "\x7b\x7b ' \x7d\x7d".toList⟩ : Segment).ClosedPlainly := by
  intro front rest
  have hfront : scan front = [⟨.text, "a\n".toList⟩, ⟨.output, "\x7b\x7b '\x7d\x7d' \x7d\x7d".toList⟩] := by decide
  have hrest : scan rest = [⟨.text, "b\n".toList⟩] ++
      ⟨.output, "\x7b\x7b ' \x7d\x7d".toList⟩ :: [⟨.text, " c".toList⟩] := by decide
  obtain ⟨hlocal, hunclean⟩ := segment_boundaries_are_local
  refine ⟨hlocal front rest true ?_ ?_, ?_⟩
  · rw [hfront]
    refine List.forall_mem_cons.mpr ⟨fun h => absurd rfl h, List.forall_mem_singleton.mpr fun hkind => ?_⟩
    exact closedCleanly_of_cutQuoted (s := " '\x7d\x7d' \x7d\x7d".toList) hkind rfl
  · rw [hfront]
    rintro _ ⟨⟩
    decide
  · obtain ⟨hnone, hplain | ⟨hnil, -⟩⟩ := hunclean rest _ _ _ hrest (by decide) fun h =>
      absurd h.isClosed (by decide)
    · exact ⟨hnone, hplain⟩
    · cases hnil

end Stencil
