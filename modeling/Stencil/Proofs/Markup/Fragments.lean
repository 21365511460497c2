import Stencil.Proofs.Markup.Lexemes
import Stencil.Proofs.Text.Classes

/-!
# Where fragments end

A scanner of fragments walks over quoted strings and over characters that stand for themselves. A text
made of such pieces (`Pieces`) is walked to its end, and the fragment goes no further if what follows
cannot be inside one.

* `run_append`, `at?_run`, `at?_quoted`: fragments at the front of a text.
* `stretchWithin_append`: stretches of a pipeline.
* `Operand`: the texts that are one fragment and can be read where operands are.
-/

namespace Stencil.Fragment

open Text

variable {p : Char → Bool} {c q : Char} {s t gap after content : List Char}

/-! ## Pieces -/

/-- Whether a character opens and closes quoted strings. -/
def isQuote (c : Char) : Bool := c == '\'' || c == '"'

theorem isQuote_iff : isQuote q = true ↔ q = '\'' ∨ q = '"' := by
  simp [isQuote]

/-- The text is made of characters of the class and of quoted strings. -/
inductive Pieces (p : Char → Bool) : List Char → Prop where
  | nil : Pieces p []
  | char {c : Char} {t : List Char} (hc : p c = true) (ht : Pieces p t) : Pieces p (c :: t)
  | quoted {q : Char} {content t : List Char} (hq : isQuote q = true) (hcontent : q ∉ content)
    (ht : Pieces p t) : Pieces p (q :: (content ++ q :: t))

theorem Pieces.append (hs : Pieces p s) (ht : Pieces p t) : Pieces p (s ++ t) := by
  induction hs with
  | nil => exact ht
  | char hc _ ih => exact .char hc ih
  | quoted hq hcontent _ ih =>
    rw [List.cons_append, List.append_assoc, List.cons_append]
    exact .quoted hq hcontent ih

theorem Pieces.of_forall (hs : ∀ c ∈ s, p c = true) : Pieces p s := by
  induction s with
  | nil => exact .nil
  | cons c s ih =>
    obtain ⟨hc, hs⟩ := List.forall_mem_cons.mp hs
    exact .char hc (ih hs)

theorem Pieces.string (hq : isQuote q = true) (hcontent : q ∉ content) :
    Pieces p (q :: content ++ [q]) :=
  .quoted hq hcontent .nil

theorem Pieces.mono {r : Char → Bool} (hs : Pieces p s) (h : ∀ c, p c = true → r c = true) :
    Pieces r s := by
  induction hs with
  | nil => exact .nil
  | char hc _ ih => exact .char (h _ hc) ih
  | quoted hq hcontent _ ih => exact .quoted hq hcontent ih

/-- What stands at the ends is a character of the class or a quote. -/
theorem Pieces.head (hs : Pieces p s) : ∀ c ∈ s.head?, p c = true ∨ isQuote c = true := by
  cases hs with
  | nil => exact fun _ hc => nomatch hc
  | char hc _ =>
    rintro _ ⟨⟩
    exact .inl hc
  | quoted hq _ _ =>
    rintro _ ⟨⟩
    exact .inr hq

theorem Pieces.getLast (hs : Pieces p s) : ∀ c ∈ s.getLast?, p c = true ∨ isQuote c = true := by
  have hstep {front t : List Char} {c : Char} (hc : p c = true ∨ isQuote c = true)
      (ht : ∀ d ∈ t.getLast?, p d = true ∨ isQuote d = true) :
      ∀ d ∈ (front ++ c :: t).getLast?, p d = true ∨ isQuote d = true := by
    intro d hd
    rw [List.getLast?_append_of_ne_nil _ (List.cons_ne_nil _ _), List.getLast?_cons] at hd
    cases hlast : t.getLast? with
    | none =>
      rw [hlast] at hd
      cases hd
      exact hc
    | some e =>
      rw [hlast] at hd
      cases hd
      exact ht _ hlast
  induction hs with
  | nil => exact fun _ hc => nomatch hc
  | @char c t hc _ ih => exact @hstep [] t c (.inl hc) ih
  | @quoted q content t hq _ _ ih => exact @hstep (q :: content) t q (.inr hq) ih

theorem isBlank_of_isQuote (hq : isQuote q = true) : isBlank q = false := by
  rcases isQuote_iff.mp hq with rfl | rfl <;> decide

theorem Pieces.trim_eq (hs : Pieces p s) (hp : ∀ c, p c = true → isBlank c = false) : trim s = s :=
  trim_of_ends (fun c hc => (hs.head c hc).elim (hp c) isBlank_of_isQuote)
    fun c hc => (hs.getLast c hc).elim (hp c) isBlank_of_isQuote

/-! ## Runs -/

/-- Characters that a fragment goes on with. -/
def isInner (c : Char) : Bool := !isBlank c && c != ',' && c != '|'

/-- Characters that stand for themselves where operands are: no colons. -/
def isSolid (c : Char) : Bool := isPlain c && c != ':'

theorem isPlain_iff : isPlain c = true ↔ isInner c = true ∧ isQuote c = false := by
  simp only [isPlain, isInner, isQuote, Bool.and_eq_true, Bool.or_eq_false_iff, bne_iff_ne,
    beq_eq_false_iff_ne]
  tauto

theorem isPlain_of_isSolid (h : isSolid c = true) : isPlain c = true := by
  simp only [isSolid, Bool.and_eq_true] at h
  exact h.1

theorem isBlank_of_isInner (h : isInner c = true) : isBlank c = false := by
  simp only [isInner, Bool.and_eq_true] at h
  simpa using h.1.1

theorem isBlank_of_isPlain (h : isPlain c = true) : isBlank c = false :=
  isBlank_of_isInner (isPlain_iff.mp h).1

theorem isSolid_of_isNameChar (hc : isNameChar c = true) : isSolid c = true := by
  have hblank := isBlank_of_isNameChar hc
  have hne {d : Char} (hd : isNameChar d = false) : c ≠ d := by
    rintro rfl
    rw [hc] at hd
    cases hd
  simp [isSolid, isPlain, hblank, hne (show isNameChar ',' = false by decide),
    hne (show isNameChar '|' = false by decide), hne (show isNameChar '\'' = false by decide),
    hne (show isNameChar '"' = false by decide), hne (show isNameChar ':' = false by decide)]

theorem isInner_of_isNameChar (hc : isNameChar c = true) : isInner c = true :=
  (isPlain_iff.mp (isPlain_of_isSolid (isSolid_of_isNameChar hc))).1

theorem isSolid_of_isDecimal (hc : isDecimal c = true) : isSolid c = true := by
  have hblank := isBlank_of_isDecimal hc
  have hne {d : Char} (hd : isDecimal d = false) : c ≠ d := by
    rintro rfl
    rw [hc] at hd
    cases hd
  simp [isSolid, isPlain, hblank, hne (show isDecimal ',' = false by decide),
    hne (show isDecimal '|' = false by decide), hne (show isDecimal '\'' = false by decide),
    hne (show isDecimal '"' = false by decide), hne (show isDecimal ':' = false by decide)]

/-- A fragment goes no further than to a blank, a comma, a bar or the end of the text. -/
theorem piece?_eq_none (hafter : Stops isInner after) : piece? after = none := by
  cases after with
  | nil => rfl
  | cons c rest =>
    rw [stops_cons] at hafter
    have hplain : isPlain c = false := by
      by_contra h
      rw [Bool.not_eq_false, isPlain_iff, hafter] at h
      cases h.1
    have hquote : c ≠ '\'' ∧ c ≠ '"' := by
      constructor <;> rintro rfl <;> exact absurd hafter (by decide)
    rw [piece?, hplain]
    exact Lexeme.quoted?_eq_none hquote

theorem quoted?_append (hq : isQuote q = true) (hcontent : q ∉ content) (after : List Char) :
    quoted? (q :: content ++ [q] ++ after) = some (q :: content ++ [q], after) := by
  rw [quoted?, List.append_assoc]
  exact Lexeme.quoted?_string (isQuote_iff.mp hq) hcontent after

theorem stops_isInner_gap (hgap : IsGap gap) (hne : gap ≠ []) (s : List Char) :
    Stops isInner (gap ++ s) := by
  obtain ⟨c, gap, rfl⟩ := List.exists_cons_of_ne_nil hne
  rw [List.cons_append, stops_cons, isInner, (isGap_cons.mp hgap).1]
  rfl

theorem stops_isInner_of_isGap (hgap : IsGap gap) : Stops isInner gap := by
  by_cases hne : gap = []
  · rw [hne]
    exact stops_nil
  · simpa using stops_isInner_gap hgap hne []

theorem piece?_char (hc : isPlain c = true) (rest : List Char) : piece? (c :: rest) = some ([c], rest) :=
  if_pos hc

theorem piece?_string (hq : isQuote q = true) (hcontent : q ∉ content) (rest : List Char) :
    piece? (q :: (content ++ q :: rest)) = some (q :: content ++ [q], rest) := by
  have hplain : isPlain q = false := by rcases isQuote_iff.mp hq with rfl | rfl <;> decide
  rw [piece?, hplain]
  simpa using quoted?_append hq hcontent rest

theorem piecesWithin_append (ht : Pieces isPlain t) (hafter : Stops isInner after) {fuel : Nat}
    (hfuel : t.length ≤ fuel) :
    (piecesWithin fuel (t ++ after)).1.flatten = t ∧ (piecesWithin fuel (t ++ after)).2 = after := by
  induction ht generalizing fuel with
  | nil =>
    cases fuel with
    | zero => exact ⟨rfl, rfl⟩
    | succ fuel => rw [List.nil_append, piecesWithin, piece?_eq_none hafter]; exact ⟨rfl, rfl⟩
  | @char c t hc ht ih =>
    obtain ⟨fuel, rfl⟩ := Nat.exists_eq_succ_of_ne_zero (Nat.ne_of_gt (Nat.zero_lt_of_lt hfuel))
    obtain ⟨htaken, hleft⟩ := ih (Nat.le_of_succ_le_succ hfuel)
    rw [List.cons_append, piecesWithin, piece?_char hc]
    exact ⟨by rw [List.flatten_cons, htaken]; rfl, hleft⟩
  | @quoted q content t hq hcontent ht ih =>
    simp only [List.length_cons, List.length_append] at hfuel
    obtain ⟨fuel, rfl⟩ := Nat.exists_eq_succ_of_ne_zero (show fuel ≠ 0 by omega)
    obtain ⟨htaken, hleft⟩ := @ih fuel (by omega)
    rw [List.cons_append, List.append_assoc, List.cons_append, piecesWithin,
      piece?_string hq hcontent]
    exact ⟨by rw [List.flatten_cons, htaken]; simp, hleft⟩

theorem run_append (ht : Pieces isPlain t) (hafter : Stops isInner after) :
    run (t ++ after) = (t, after) := by
  have hfuel : t.length ≤ (t ++ after).length := by simp
  obtain ⟨htaken, hleft⟩ := piecesWithin_append ht hafter hfuel
  exact Prod.ext htaken hleft

theorem run?_append (ht : Pieces isPlain t) (hne : t ≠ []) (hafter : Stops isInner after) :
    run? (t ++ after) = some (t, after) := by
  rw [run?, run_append ht hafter]
  simp [hne]

/-! ## Fragments -/

theorem at?_quoted (hq : isQuote q = true) (hcontent : q ∉ content) (after : List Char) :
    at? (q :: content ++ [q] ++ after) = some (q :: content ++ [q], after) := by
  rw [at?, quoted?_append hq hcontent]
  rfl

theorem at?_run (ht : Pieces isPlain t) (hne : t ≠ []) (hquote : Stops isQuote t)
    (hafter : Stops isInner after) : at? (t ++ after) = some (t, after) := by
  obtain ⟨c, rest, rfl⟩ := List.exists_cons_of_ne_nil hne
  have hc : c ≠ '\'' ∧ c ≠ '"' := by
    rw [stops_cons] at hquote
    constructor <;> rintro rfl <;> exact absurd hquote (by decide)
  rw [at?, run?_append ht hne hafter, List.cons_append, quoted?, Lexeme.quoted?_eq_none hc]
  rfl

theorem at?_eq_none (hs : Stops isInner s) : at? s = none := by
  have hrun : run? s = none := by
    rw [run?, show run s = ([], s) from run_append .nil hs]
    rfl
  have hquoted : quoted? s = none := by
    cases s with
    | nil => rfl
    | cons c rest =>
      refine Lexeme.quoted?_eq_none ?_
      constructor <;> rintro rfl <;> exact absurd hs (by rw [stops_cons]; decide)
  rw [at?, hquoted, hrun]
  rfl

theorem first?_gap (hgap : IsGap gap) (s : List Char) : first? (gap ++ s) = first? s := by
  induction gap with
  | nil => rfl
  | cons c gap ih =>
    obtain ⟨hc, hgap⟩ := isGap_cons.mp hgap
    have hstops : Stops isInner (c :: (gap ++ s)) := by
      rw [stops_cons]
      simp [isInner, hc]
    rw [List.cons_append, first?, at?_eq_none hstops, ih hgap]
    rfl

theorem first?_of_isGap (hgap : IsGap gap) : first? gap = none := by
  simpa [first?] using first?_gap hgap []

theorem first?_of_at? {found : List Char × List Char} (hs : at? s = some found) :
    first? s = some found := by
  cases s with
  | nil => cases hs
  | cons c rest => rw [first?, hs]; rfl

/-! ## Operands -/

/-- The text is one quoted string. -/
def IsString (t : List Char) : Prop :=
  ∃ q content, isQuote q = true ∧ q ∉ content ∧ t = q :: content ++ [q]

/-- The text is one fragment without colons outside of quotes. -/
structure Operand (t : List Char) : Prop where
  pieces : Pieces isSolid t
  nonempty : t ≠ []
  starts : IsString t ∨ Stops isQuote t

namespace Operand

theorem runs (ht : Operand t) : Pieces isPlain t := ht.pieces.mono fun _ => isPlain_of_isSolid

/-- An operand is found as a fragment; one that is a quoted string may be followed by anything. -/
theorem at?_eq (ht : Operand t) (hafter : Stops isInner after ∨ IsString t) :
    at? (t ++ after) = some (t, after) := by
  have hstring (h : IsString t) : at? (t ++ after) = some (t, after) := by
    obtain ⟨q, content, hq, hcontent, rfl⟩ := h
    exact at?_quoted hq hcontent after
  rcases hafter with hafter | h
  · rcases ht.starts with h | hquote
    · exact hstring h
    · exact at?_run ht.runs ht.nonempty hquote hafter
  · exact hstring h

theorem stops_isBlank (ht : Operand t) (after : List Char) : Stops isBlank (t ++ after) := by
  obtain ⟨c, rest, rfl⟩ := List.exists_cons_of_ne_nil ht.nonempty
  rw [List.cons_append, stops_cons]
  exact (ht.runs.head c rfl).elim isBlank_of_isPlain isBlank_of_isQuote

end Operand

end Stencil.Fragment
