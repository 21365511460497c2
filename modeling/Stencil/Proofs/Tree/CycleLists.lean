import Stencil.Proofs.Expr.Paths
import Stencil.Proofs.Expr.Ranges
import Stencil.Proofs.Expr.Safety
import Stencil.Proofs.Fallible
import Stencil.Proofs.Markup.Fragments
import Stencil.Proofs.Markup.Within
import Stencil.Tree.Header

/-!
# Lists of cycles

A cycle lists its values, with the name of its group in front of them or not. Quoted strings stand for
themselves there, whatever blanks, bars and colons they hold. Commas are another matter: the list is cut at
its commas before anything is known of quotes.

* `namedCycle?_named`, `namedCycle?_listed`: whether a group is named in front of a list.
* `cycleValues_listed`: a list of strings without commas is cut into these strings.
* `exists_string_of_mem_values`: no string that is read as a value holds a comma.
* `cycle_list_read_iff`: a list is read as its strings just if there is no comma in them.
-/

namespace Stencil

open Text

namespace Fragment

variable {s t gap : List Char} {c : Char}

/-! ## Cutting at commas -/

theorem cycleValues_append_comma (s t : List Char) :
    cycleValues (s ++ ',' :: t) = cycleValues s ++ cycleValues t := by
  rw [cycleValues, List.splitOnP_append_cons s t (by decide), List.filterMap_append]
  rfl

/-- A text without commas has at most one value, its first fragment. -/
theorem cycleValues_of_noComma (hs : ',' ∉ s) :
    cycleValues s = ((first? s).map (·.1)).toList := by
  have hparts : s.splitOnP (· == ',') = [s] := by
    refine List.splitOnP_eq_singleton fun c hc => ?_
    rw [beq_eq_false_iff_ne]
    rintro rfl
    exact hs hc
  rw [cycleValues, hparts]
  cases hfirst : first? s <;> simp [hfirst]

/-- Blanks in front of a list make no difference. -/
theorem cycleValues_blank (hc : isBlank c = true) (s : List Char) :
    cycleValues (c :: s) = cycleValues s := by
  have hcomma : (c == ',') = false := by
    rw [beq_eq_false_iff_ne]
    rintro rfl
    exact absurd hc (by decide)
  obtain ⟨first, others, hparts⟩ := List.exists_cons_of_ne_nil (List.splitOnP_ne_nil (· == ',') s)
  have hgap : IsGap [c] := isGap_cons.mpr ⟨hc, isGap_nil⟩
  have hfirst : first? (c :: first) = first? first := first?_gap hgap first
  rw [cycleValues, cycleValues, List.splitOnP_cons_eq_if_modifyHead, hcomma, hparts,
    if_neg Bool.false_ne_true, List.modifyHead_cons, List.filterMap_cons, List.filterMap_cons, hfirst]

/-- The parts between separators hold none. -/
theorem forall_of_mem_splitOnP {p : Char → Bool} (ht : t ∈ s.splitOnP p) : ∀ c ∈ t, p c = false := by
  induction s generalizing t with
  | nil =>
    rw [List.splitOnP_nil, List.mem_singleton] at ht
    rw [ht]
    exact fun _ hc => nomatch hc
  | cons d s ih =>
    obtain ⟨first, others, hparts⟩ := List.exists_cons_of_ne_nil (List.splitOnP_ne_nil p s)
    rw [hparts] at ih
    obtain ⟨hfirst, hothers⟩ := List.forall_mem_cons.mp fun u hu => @ih u hu
    rw [List.splitOnP_cons_eq_if_modifyHead, hparts] at ht
    split at ht
    · rcases List.mem_cons.mp ht with rfl | ht
      · exact fun _ hc => nomatch hc
      · exact ih ht
    · next hd =>
      rcases List.mem_cons.mp ht with rfl | ht
      · exact List.forall_mem_cons.mpr ⟨by simpa using hd, hfirst⟩
      · exact hothers t ht

/-- No value of a cycle holds a comma. -/
theorem comma_not_mem_of_mem_cycleValues (ht : t ∈ cycleValues s) : ',' ∉ t := by
  obtain ⟨part, hpart, hfirst⟩ := List.mem_filterMap.mp ht
  obtain ⟨⟨found, behind⟩, hfound, rfl⟩ := Option.map_eq_some_iff.mp hfirst
  intro hcomma
  have hmem : ',' ∈ part := (found_of_first? hfound).within.subset hcomma
  exact absurd (forall_of_mem_splitOnP hpart _ hmem) (by decide)

end Fragment

/-! ## Strings that are read -/

namespace Expr

/-- The characters of a string that is read stand in its text. -/
theorem subset_of_read_str {s : List Char} {text : String} (h : read s = .ok (.value (.str text))) :
    text.toList ⊆ s := by
  rw [read_eq, readWith] at h
  -- in the order in which it is decided what the text is
  split at h
  · next v hword =>
    cases h
    rcases literalWord?_cases hword with h | ⟨_, h⟩ | ⟨_, h⟩ <;> cases h
  split at h
  · next content hcontent =>
    cases h
    rw [String.toList_ofList]
    exact ((within_of_quotedContent? hcontent).trans (trim_isInfix s)).subset
  split at h
  · obtain ⟨_, -, h⟩ := map_eq_ok_iff.mp h
    cases h
  split at h
  · obtain ⟨_, -, h⟩ := bind_eq_ok_iff.mp h
    obtain ⟨_, -, h⟩ := bind_eq_ok_iff.mp h
    rcases isRange_of_between h with h | ⟨_, _, _, _, -, -, -, -, h⟩ <;> cases h
  split at h
  · cases h
  split at h
  · cases h
  · obtain ⟨_, -, h⟩ := bind_eq_ok_iff.mp h
    obtain ⟨_, -, h⟩ := bind_eq_ok_iff.mp h
    cases h

/-- A quoted string as an expression. -/
def Quotation.expr (t : Quotation) : Expr := .value (.str t.text)

theorem mapM_read_quotations (ts : List Quotation) :
    (ts.map Quotation.chars).mapM read = .ok (ts.map Quotation.expr) := by
  induction ts with
  | nil => rfl
  | cons t ts ih =>
    rw [List.map_cons, List.mapM_cons, read_quotation, ih]
    rfl

theorem mapM_shown_quotations (ts : List Quotation) :
    (ts.map Quotation.expr).mapM shown = .ok (ts.map fun t => Text.quoted t.text) := by
  induction ts with
  | nil => rfl
  | cons t ts ih =>
    rw [List.map_cons, List.mapM_cons, ih]
    rfl

end Expr

/-! ## Lists of strings -/

open Stencil.Expr (Quotation)

/-- Strings in quotes, with a comma and a blank between every two. -/
def listed (ts : List Quotation) : List Char := [',', ' '].intercalate (ts.map Quotation.chars)

/-- A list, and in front of it the name of the group, if there is one. -/
def named (group : Option Quotation) (values : List Char) : List Char :=
  match group with
  | some name => name.chars ++ ':' :: ' ' :: values
  | none => values

theorem listed_singleton (t : Quotation) : listed [t] = t.chars := by
  simp [listed]

theorem listed_cons_cons (t u : Quotation) (ts : List Quotation) :
    listed (t :: u :: ts) = t.chars ++ ',' :: ' ' :: listed (u :: ts) := by
  simp [listed, List.intercalate_cons_cons]

/-- A list starts with its first string, and only a comma or the blanks behind the list follow it. -/
theorem listed_append (t : Quotation) (ts : List Quotation) {gap : List Char} (hgap : IsGap gap) :
    ∃ after, listed (t :: ts) ++ gap = t.chars ++ after ∧
      (IsGap after ∨ ∃ rest, after = ',' :: rest) := by
  cases ts with
  | nil => exact ⟨gap, by rw [listed_singleton], .inl hgap⟩
  | cons u ts =>
    refine ⟨',' :: ' ' :: listed (u :: ts) ++ gap, ?_, .inr ⟨_, rfl⟩⟩
    rw [listed_cons_cons, List.append_assoc]

namespace Fragment

variable {gap : List Char}

theorem isQuote_quotation (t : Quotation) : isQuote t.quote = true := isQuote_iff.mpr t.isQuote

theorem quoted?_quotation (t : Quotation) (after : List Char) :
    quoted? (t.chars ++ after) = some (t.chars, after) :=
  quoted?_append (isQuote_quotation t) t.closed after

theorem at?_quotation (t : Quotation) (after : List Char) :
    at? (t.chars ++ after) = some (t.chars, after) :=
  at?_quoted (isQuote_quotation t) t.closed after

theorem comma_not_mem_chars {t : Quotation} (ht : ',' ∉ t.content) : ',' ∉ t.chars := by
  have hquote : ',' ≠ t.quote := by
    rcases t.isQuote with h | h <;> rw [h] <;> decide
  simp [Quotation.chars, ht, hquote]

theorem comma_not_mem_gap (hgap : IsGap gap) : ',' ∉ gap := by
  intro hmem
  exact absurd (hgap _ hmem) (by decide)

/-- **Strings without commas are the values of their list.** -/
theorem cycleValues_listed {ts : List Quotation} (hne : ts ≠ []) (hts : ∀ t ∈ ts, ',' ∉ t.content)
    (hgap : IsGap gap) : cycleValues (listed ts ++ gap) = ts.map Quotation.chars := by
  induction ts with
  | nil => exact absurd rfl hne
  | cons t ts ih =>
    obtain ⟨ht, hts⟩ := List.forall_mem_cons.mp hts
    have hcomma := comma_not_mem_chars ht
    cases ts with
    | nil =>
      have hnone : ',' ∉ t.chars ++ gap := by
        simp [hcomma, comma_not_mem_gap hgap]
      rw [listed_singleton, cycleValues_of_noComma hnone, first?_of_at? (at?_quotation t gap)]
      rfl
    | cons u ts =>
      have hfirst : first? t.chars = some (t.chars, []) := by
        simpa using first?_of_at? (at?_quotation t [])
      rw [listed_cons_cons, List.append_assoc, List.cons_append, List.cons_append,
        cycleValues_append_comma, cycleValues_blank (by decide), cycleValues_of_noComma hcomma, hfirst,
        ih (List.cons_ne_nil u ts) hts]
      rfl

/-! ## Names of groups -/

/-- A quoted name in front of a list is the name of the group. -/
theorem namedCycle?_named (name t : Quotation) (ts : List Quotation) (gap : List Char) :
    namedCycle? (named (some name) (listed (t :: ts)) ++ gap) =
      some (name.chars, listed (t :: ts) ++ gap) := by
  have hstops : Stops isBlank (listed (t :: ts) ++ gap) := by
    have hquote := isBlank_of_isQuote (isQuote_quotation t)
    cases ts with
    | nil => rw [listed_singleton]; exact stops_cons.mpr hquote
    | cons u ts => rw [listed_cons_cons]; exact stops_cons.mpr hquote
  have htrim : trimLeft (':' :: ' ' :: (listed (t :: ts) ++ gap)) =
      ':' :: ' ' :: (listed (t :: ts) ++ gap) := trimLeft_of_stops (stops_cons.mpr (by decide))
  have hblank : trimLeft (' ' :: (listed (t :: ts) ++ gap)) = listed (t :: ts) ++ gap := by
    rw [← List.singleton_append, trimLeft_gap (isGap_cons.mpr ⟨by decide, isGap_nil⟩),
      trimLeft_of_stops hstops]
  rw [named, List.append_assoc, List.cons_append, List.cons_append, namedCycle?, quoted?_quotation]
  simp [htrim, hblank]

/-- No group is named in front of a list without a name: a comma or the end follows its first string,
whatever colons the string holds. -/
theorem namedCycle?_listed (t : Quotation) (ts : List Quotation) (hgap : IsGap gap) :
    namedCycle? (listed (t :: ts) ++ gap) = none := by
  obtain ⟨after, hlist, hafter⟩ := listed_append t ts hgap
  have hstops : Stops isInner after := by
    rcases hafter with h | ⟨rest, rfl⟩
    · exact stops_isInner_of_isGap h
    · exact stops_cons.mpr (by decide)
  have hcolon : ∀ rest, trimLeft after ≠ ':' :: rest := by
    rcases hafter with h | ⟨rest, rfl⟩
    · rw [trimLeft_of_isGap h]
      exact fun _ h => nomatch h
    · rw [trimLeft_of_stops (stops_cons.mpr (by decide))]
      intro _ h
      exact absurd (List.cons.inj h).1 (by decide)
  have hpieces : ∀ fuel, piecesWithin (fuel + 2) (t.chars ++ after) = ([t.chars], after) := by
    intro fuel
    have hpiece := piece?_string (isQuote_quotation t) t.closed after
    rw [show t.chars ++ after = t.quote :: (t.content ++ t.quote :: after) by simp [Quotation.chars],
      piecesWithin, hpiece]
    dsimp only
    rw [piecesWithin, piece?_eq_none hstops]
    rfl
  have hlength : (t.chars ++ after).length = (t.content.length + after.length) + 2 := by
    simp [Quotation.chars]
    omega
  have hsolid : (t.chars != [':']) = true := by
    rcases t.isQuote with h | h <;> simp [Quotation.chars, h]
  rw [hlist, namedCycle?, quoted?_quotation, hlength, hpieces]
  -- by `hcolon` no colon follows, neither behind the string nor behind the run of pieces
  simp [hsolid, namedCycle?.lastColon?]

end Fragment

/-! ## Lists as cycles -/

variable {gap : List Char}

theorem readCycle_named {group : Option Quotation} {ts : List Quotation} (hne : ts ≠ [])
    (hts : ∀ t ∈ ts, ',' ∉ t.content) (hgap : IsGap gap) :
    ∃ key, readCycle (named group (listed ts) ++ gap) = .ok (key, ts.map Quotation.expr) ∧
      ∀ name ∈ group, key = name.expr := by
  obtain ⟨t, others, rfl⟩ := List.exists_cons_of_ne_nil hne
  have hvalues := Fragment.cycleValues_listed hne hts hgap
  cases group with
  | some name =>
    refine ⟨name.expr, ?_, fun _ h => by rw [Option.mem_some_iff.mp h]⟩
    rw [readCycle, Fragment.namedCycle?_named]
    dsimp only
    rw [hvalues, Expr.mapM_read_quotations, Expr.read_quotation]
    rfl
  | none =>
    obtain ⟨after, hlist, -⟩ := listed_append t others hgap
    have hsome : (Fragment.at? (listed (t :: others) ++ gap)).isNone = false := by
      rw [hlist, Fragment.at?_quotation]
      rfl
    -- a group without a name is named by its values
    refine ⟨.value (.str (", ".intercalate ((t :: others).map fun t => quoted t.text))), ?_,
      fun _ h => nomatch h⟩
    rw [named, readCycle, Fragment.namedCycle?_listed t others hgap]
    dsimp only
    rw [hsome, if_neg Bool.false_ne_true, hvalues]
    exact bind_eq_ok_iff.mpr ⟨_, Expr.mapM_read_quotations _,
      bind_eq_ok_iff.mpr ⟨_, Expr.mapM_shown_quotations _, rfl⟩⟩

/-- What is read as values are the values of a list. -/
theorem exists_of_readCycle {markup : List Char} {key : Expr} {values : List Expr}
    (h : readCycle markup = .ok (key, values)) :
    ∃ s, (Fragment.cycleValues s).mapM Expr.read = .ok values := by
  unfold readCycle at h
  split at h
  · obtain ⟨read, hread, h⟩ := bind_eq_ok_iff.mp h
    obtain ⟨_, -, h⟩ := bind_eq_ok_iff.mp h
    cases h
    exact ⟨_, hread⟩
  · split at h
    · cases h
    · obtain ⟨read, hread, h⟩ := bind_eq_ok_iff.mp h
      obtain ⟨_, -, h⟩ := bind_eq_ok_iff.mp h
      cases h
      exact ⟨_, hread⟩

/-- No string that is read as a value holds a comma. -/
theorem comma_not_mem_of_mem_values {markup : List Char} {key : Expr} {values : List Expr}
    (h : readCycle markup = .ok (key, values)) {t : Quotation} (ht : t.expr ∈ values) :
    ',' ∉ t.content := by
  obtain ⟨s, hread⟩ := exists_of_readCycle h
  obtain ⟨text, htext, hstring⟩ := exists_of_mapM_eq_ok hread _ ht
  intro hcomma
  have hsubset := Expr.subset_of_read_str hstring
  rw [Quotation.text, String.toList_ofList] at hsubset
  exact Fragment.comma_not_mem_of_mem_cycleValues htext (hsubset hcomma)

/-- **Strings in a list of values are the values just if no string holds a comma.** With a name in front or
without one, and whatever blanks, bars and colons the strings and the name hold; the group has the name. With
a comma in a string the list is cut there too, although there are quotes around it. -/
theorem cycle_list_read_iff (group : Option Quotation) {ts : List Quotation} (hne : ts ≠ [])
    (hgap : IsGap gap) :
    (∃ key, readCycle (named group (listed ts) ++ gap) = .ok (key, ts.map Quotation.expr) ∧
      ∀ name ∈ group, key = name.expr) ↔ ∀ t ∈ ts, ',' ∉ t.content := by
  refine ⟨fun ⟨key, hread, _⟩ t ht => ?_, fun hts => readCycle_named hne hts hgap⟩
  exact comma_not_mem_of_mem_values hread (List.mem_map_of_mem ht)

theorem isQuote_double : '"' = '\'' ∨ '"' = '"' := .inr rfl

/-- A string with a colon, one with a bar, and one with blanks and the other quote. -/
def separatorStrings : List Quotation :=
  [⟨'\'', "a: b".toList, .inl rfl, by decide⟩, ⟨'"', "c | d".toList, isQuote_double, by decide⟩,
    ⟨'"', " it's ".toList, isQuote_double, by decide⟩]

/-- A name for a group, with a comma and a colon in it. -/
def separatorName : Quotation := ⟨'\'', "x, y: z".toList, .inl rfl, by decide⟩

theorem cycle_list_read_with_separators :
    separatorStrings ≠ [] ∧ IsGap [' '] ∧ (∀ t ∈ separatorStrings, ',' ∉ t.content) ∧
      String.ofList (named (some separatorName) (listed separatorStrings) ++ [' ']) =
        "'x, y: z': 'a: b', \"c | d\", \" it's \" " ∧
      ∃ key, readCycle (named (some separatorName) (listed separatorStrings) ++ [' ']) =
          .ok (key, separatorStrings.map Quotation.expr) ∧ ∀ name ∈ some separatorName, key = name.expr := by
  have hne : separatorStrings ≠ [] := List.cons_ne_nil _ _
  have hgap : IsGap [' '] := isGap_cons.mpr ⟨by decide, isGap_nil⟩
  have hnone : ∀ t ∈ separatorStrings, ',' ∉ t.content := by decide
  exact ⟨hne, hgap, hnone, by decide, (cycle_list_read_iff (some separatorName) hne hgap).mpr hnone⟩

/-- A string with a comma, and one without. -/
def stringsWithComma : List Quotation :=
  [⟨'\'', "a,b".toList, .inl rfl, by decide⟩, ⟨'\'', "c".toList, .inl rfl, by decide⟩]

/-- Cut at the comma in it, a string is no string any more: its halves are read as variables. -/
theorem cycle_list_cut_in_string :
    String.ofList (listed stringsWithComma) = "'a,b', 'c'" ∧
      (readCycle (listed stringsWithComma)).map (·.2) =
        .ok [.lookup (.value (.str "a")) [], .lookup (.value (.str "b")) [], .value (.str "c")] :=
  ⟨by decide, rfl⟩

end Stencil
