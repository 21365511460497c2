import Stencil.Proofs.Expr.Numerals
import Stencil.Proofs.Expr.Reading
import Stencil.Proofs.Expr.Subexpressions
import Stencil.Proofs.Text.Trim

/-!
# Texts that are read without failing

An expression cannot be read if it holds a numeral that is too long, or a range whose ends have no whole
number. `SafeNumerals T V` says that no text of the kind `T` has such a numeral or range, and that the
literals that are made of it are of the kind `V`, so that they can be shown. There are two such kinds:

* `Text.HasNoDots`: no two dots stand next to each other, so that there are no ranges.
* `Text.HasPlainDigits`: every character with a digit value is a decimal digit, and at most 308 of them stand
  next to each other.
-/

namespace Stencil

open Text

/-- Texts of the kind `T`, and all that stand in them, are read without failing, and the literals in what is
read are of the kind `V` and can be shown. -/
structure SafeNumerals (T : List Char → Prop) (V : Value → Prop) : Prop where
  within {s t : List Char} (ht : t <:+: s) (hs : T s) : T t
  word {s : List Char} {v : Value} (hword : Expr.literalWord? s = some v) : V v
  text {s : List Char} (hs : T s) : V (.str (String.ofList s))
  whole {s : List Char} (hs : T s) (hwhole : Expr.isWholeNumber s = true) :
    ∃ n, Number.readInt s = .ok n ∧ V (.int n)
  number {s chars after : List Char} {x : Binary64} (hs : T s)
    (hnumber : Lexeme.number? s = some (chars, after)) (hread : Number.readBinary 0 chars = some x) :
    V (.float x)
  range {s first last : List Char} {v w : Value} (hs : T s) (hends : Expr.rangeEnds? s = some (first, last))
    (hv : V v) (hw : V w) :
    ∃ start stop, v.toInt #[] = .ok start ∧ w.toInt #[] = .ok stop ∧ V (.range (.inclusive start stop))
  shown {v : Value} (hv : V v) : ∃ s, v.shown #[] = .ok s

namespace Expr

/-- The characters of a part of a path, without brackets. -/
def Part.chars : Part → List Char
  | .name s => s
  | .index content => content

/-- The parts of a path stand in it. -/
theorem within_of_mem_parts {s : List Char} {part : Part} (hmem : part ∈ parts s) : part.chars <:+: s := by
  induction hlength : s.length using Nat.strongRecOn generalizing s with
  | ind n ih =>
    subst hlength
    cases s with
    | nil => cases hmem
    | cons c rest =>
      -- what follows a part is shorter
      have hlater {after : List Char} (hafter : after <:+ rest) (hmem : part ∈ parts after) :
          part.chars <:+: c :: rest :=
        (ih after.length (Nat.lt_succ_of_le hafter.length_le) hmem rfl).trans
          (hafter.isInfix.trans (List.suffix_cons c rest).isInfix)
      rw [parts_cons] at hmem
      split at hmem
      · next front after hbrackets =>
        split at hbrackets
        · have hrest := bracketed?_eq_some hbrackets
          rcases List.mem_cons.mp hmem with rfl | hmem
          · exact ⟨[c], ']' :: after, by rw [hrest]; simp [Part.chars]⟩
          · exact hlater ⟨front ++ [']'], by rw [hrest]; simp⟩ hmem
        · cases hbrackets
      · split at hmem
        · next name after hname =>
          obtain ⟨hrest, hne⟩ := pathName?_eq_some hname
          obtain ⟨d, name, rfl⟩ := List.exists_cons_of_ne_nil hne
          rcases List.mem_cons.mp hmem with rfl | hmem
          · exact ⟨[], after, hrest.symm⟩
          · exact hlater ⟨name, (List.cons.inj hrest).2.symm⟩ hmem
        · exact hlater List.suffix_rfl hmem

variable {T : List Char → Prop} {V : Value → Prop}

/-- A quoted text holds its content. -/
theorem within_of_quotedContent? {s content : List Char} (hquoted : quotedContent? s = some content) :
    content <:+: s := by
  unfold quotedContent? at hquoted
  split at hquoted
  · cases hquoted
  · next q rest =>
    split at hquoted
    · split at hquoted
      · split at hquoted
        · cases hquoted
          exact (List.dropLast_prefix rest).isInfix.trans (List.suffix_cons q rest).isInfix
        · cases hquoted
      · cases hquoted
    · cases hquoted

theorem exists_between (h : SafeNumerals T V) {s : List Char} {ends : List Char × List Char} (hs : T s)
    (hends : rangeEnds? s = some ends) {first last : Expr} (hfirst : first.Literals V)
    (hlast : last.Literals V) : ∃ e, between first last = .ok e ∧ e.Literals V := by
  have hdeferred : ∃ e, (Except.ok (Expr.range first last) : Outcome Expr) = .ok e ∧ e.Literals V :=
    ⟨_, rfl, literals_range hfirst hlast⟩
  unfold between
  split
  · split
    · exact hdeferred
    · obtain ⟨start, stop, hstart, hstop, hspan⟩ := h.range hs hends hfirst.value hlast.value
      rw [hstart, hstop]
      exact ⟨_, rfl, literals_value hspan⟩
  · exact hdeferred

theorem value_of_leadingNumber? (h : SafeNumerals T V) {s : List Char} (hs : T s) {x : Binary64}
    (hx : (leadingNumber? s).bind (Number.readBinary 0) = some x) : V (.float x) := by
  obtain ⟨chars, hleading, hread⟩ := Option.bind_eq_some_iff.mp hx
  unfold leadingNumber? at hleading
  split at hleading
  · next number after hnumber =>
    split at hleading
    · cases hleading
      exact h.number hs hnumber hread
    · cases hleading
  · cases hleading

/-! ### Texts with texts inside -/

section

variable {s : List Char}
  (hinner : ∀ t, t <:+: s → t.length < s.length → ∃ e, read t = .ok e ∧ e.Literals V)

include hinner

theorem exists_readRange (h : SafeNumerals T V) (hs : T s) {first last : List Char}
    (hends : rangeEnds? s = some (first, last)) :
    ∃ e, (do between (← read first) (← read last)) = Except.ok e ∧ e.Literals V := by
  have htext := rangeEnds?_eq_some hends
  have hlength := congrArg List.length htext
  simp only [List.length_append, List.length_cons] at hlength
  obtain ⟨start, hstart, hfirst⟩ := hinner first ⟨['('], '.' :: '.' :: last ++ [')'], by rw [htext]; simp⟩
    (by omega)
  obtain ⟨stop, hstop, hlast⟩ := hinner last ⟨'(' :: first ++ ['.', '.'], [')'], by rw [htext]; simp⟩
    (by omega)
  rw [hstart, hstop]
  exact exists_between h hs hends hfirst hlast

/-- A part that is no name is the content of brackets. -/
theorem exists_readPart (h : SafeNumerals T V) (hs : T s) {part : Part} (hmem : part ∈ parts s) :
    (∃ e, part.toRoot read = .ok e ∧ e.Literals V) ∧
      ∃ step, part.toStep read = .ok step ∧ step.key.Literals V := by
  cases part with
  | name name =>
    have hname := literals_value (h.text (h.within (within_of_mem_parts hmem) hs))
    exact ⟨⟨_, rfl, hname⟩, _, rfl, hname⟩
  | index content =>
    obtain ⟨e, he, hliterals⟩ := hinner content (within_of_mem_parts hmem) (length_lt_of_index_mem hmem)
    exact ⟨⟨e, he, hliterals⟩, .index e, by rw [Part.toStep, he]; rfl, hliterals⟩

theorem exists_readPath (h : SafeNumerals T V) (hs : T s) {root : Part} {path : List Part}
    (hparts : parts s = root :: path) :
    ∃ e, (do return Expr.lookup (← root.toRoot read) (← path.mapM (Part.toStep read))) = Except.ok e ∧
      e.Literals V := by
  obtain ⟨e, he, hroot⟩ := (exists_readPart hinner h hs (hparts ▸ List.mem_cons_self)).1
  obtain ⟨steps, hsteps, hkeys⟩ := exists_mapM_eq_ok fun part hmem =>
    (exists_readPart hinner h hs (hparts ▸ List.mem_cons_of_mem root hmem)).2
  exact ⟨.lookup e steps, bind_eq_ok_iff.mpr ⟨e, he, bind_eq_ok_iff.mpr ⟨steps, hsteps, rfl⟩⟩,
    literals_lookup hroot hkeys⟩

end

/-- **A text of the kind is read**, and its literals are of theirs. Induction on the length of the text: the
expressions in it are shorter. -/
theorem exists_read (h : SafeNumerals T V) {s : List Char} (hs : T s) :
    ∃ e, read s = .ok e ∧ e.Literals V := by
  induction hlength : s.length using Nat.strongRecOn generalizing s with
  | ind n ih =>
    subst hlength
    have hinner (t : List Char) (ht : t <:+: trim s) (hshorter : t.length < (trim s).length) :
        ∃ e, read t = .ok e ∧ e.Literals V :=
      ih t.length (Nat.lt_of_lt_of_le hshorter (length_trim_le s)) (h.within (ht.trans (trim_isInfix s)) hs) rfl
    have hs : T (trim s) := h.within (trim_isInfix s) hs
    rw [read_eq, readWith]
    -- in the order in which it is decided what the text is
    split
    · next v hword => exact ⟨_, rfl, literals_value (h.word hword)⟩
    split
    · next content hcontent =>
      exact ⟨_, rfl, literals_value (h.text (h.within (within_of_quotedContent? hcontent) hs))⟩
    split
    · next hwhole =>
      obtain ⟨k, hread, hk⟩ := h.whole hs hwhole
      rw [hread]
      exact ⟨_, rfl, literals_value hk⟩
    split
    · next first last hends => exact exists_readRange hinner h hs hends
    split
    · next x hx => exact ⟨_, rfl, literals_value (value_of_leadingNumber? h hs hx)⟩
    split
    · exact ⟨_, rfl, literals_lookup (literals_value (h.word (s := []) rfl)) fun _ hstep =>
        absurd hstep List.not_mem_nil⟩
    · next root path hparts => exact exists_readPath hinner h hs hparts

mutual

/-- **An expression whose literals can be shown can be shown.** -/
theorem exists_shown (h : ∀ v, V v → ∃ s, v.shown #[] = .ok s) (e : Expr) (he : e.Literals V) :
    ∃ s, e.shown = .ok s :=
  match e with
  | .value v => by
    unfold shown
    exact h v he.value
  | .lookup root path => by
    obtain ⟨name, hname⟩ := exists_shown h root he.root
    obtain ⟨steps, hsteps⟩ := exists_shownPath h path fun key hkey => he.key hkey
    unfold shown
    rw [hname, hsteps]
    exact ⟨_, rfl⟩
  | .range first last => by
    obtain ⟨start, hstart⟩ := exists_shown h first he.ends.1
    obtain ⟨stop, hstop⟩ := exists_shown h last he.ends.2
    unfold shown
    rw [hstart, hstop]
    exact ⟨_, rfl⟩
termination_by structural e

theorem exists_shownPath (h : ∀ v, V v → ∃ s, v.shown #[] = .ok s) (path : List Step)
    (hpath : ∀ key, .index key ∈ path → key.Literals V) : ∃ ss, shownPath path = .ok ss :=
  match path with
  | [] => ⟨[], by rw [shownPath]⟩
  | .name s :: rest => by
    obtain ⟨ss, hss⟩ := exists_shownPath h rest fun key hkey => hpath key (List.mem_cons_of_mem _ hkey)
    unfold shownPath
    rw [hss]
    exact ⟨_, rfl⟩
  | .index e :: rest => by
    obtain ⟨s, hs⟩ := exists_shown h e (hpath e List.mem_cons_self)
    obtain ⟨ss, hss⟩ := exists_shownPath h rest fun key hkey => hpath key (List.mem_cons_of_mem _ hkey)
    unfold shownPath
    rw [hs, hss]
    exact ⟨_, rfl⟩
termination_by structural path

end

end Expr

/-! ## Texts without ranges -/

/-- No two dots stand next to each other, and no numeral is too long. -/
structure Text.HasNoDots (s : List Char) : Prop where
  dots : RunsBelow (· == '.') 2 s
  short : RunsBelow isDecimal (Number.maxDigits + 1) s

/-- A numeral of a text is read, if no numeral of the text is too long. -/
theorem exists_readInt_of_isWholeNumber {s : List Char} {n : Nat} (hn : n ≤ Number.maxDigits)
    (hshort : RunsBelow isDecimal (n + 1) s) (hwhole : Expr.isWholeNumber s = true) :
    ∃ k, Number.readInt s = .ok k ∧ k.natAbs < 10 ^ n := by
  obtain ⟨sign, digits, rfl, hsign, hne, hdigits⟩ := digits_of_isWholeNumber hwhole
  have hlength : digits.length < n + 1 :=
    hshort digits (List.suffix_append sign digits).isInfix hdigits
  obtain ⟨k, hread, hk⟩ := exists_readInt_of_digits hsign hne hdigits (by omega)
  exact ⟨k, hread, hk.trans_le (Nat.pow_le_pow_right (by decide) (Nat.lt_succ_iff.mp hlength))⟩

/-- Words stand for values that are shown. -/
theorem Expr.literalWord?_cases {s : List Char} {v : Value} (hword : literalWord? s = some v) :
    v = .nil ∨ (∃ b, v = .bool b) ∨ ∃ l, v = .literal l := by
  unfold literalWord? at hword
  split at hword
  · cases hword
    exact .inl rfl
  · split at hword <;> cases hword <;> simp

/-- **Texts without ranges are read without failing.** -/
theorem safeNumerals_noDots :
    SafeNumerals Text.HasNoDots fun v => ∃ s, v.shown #[] = .ok s where
  within ht hs := ⟨hs.dots.within ht, hs.short.within ht⟩
  word hword := by
    rcases Expr.literalWord?_cases hword with rfl | ⟨b, rfl⟩ | ⟨l, rfl⟩ <;> exact ⟨_, rfl⟩
  text _ := ⟨_, rfl⟩
  whole hs hwhole := by
    obtain ⟨k, hread, hk⟩ := exists_readInt_of_isWholeNumber (Nat.le_refl _) hs.short hwhole
    exact ⟨k, hread, Value.exists_intText hk⟩
  number _ _ _ := ⟨_, rfl⟩
  range {s first last _ _} hs hends _ _ := by
    -- the ends of a range have two dots between them
    rw [Expr.rangeEnds?_eq_some hends] at hs
    have hdots : ['.', '.'].length < 2 := hs.dots ['.', '.']
      ⟨'(' :: first, last ++ [')'], by simp⟩ (by decide)
    exact absurd hdots (by decide)
  shown hv := hv

/-! ## Texts with plain digits -/

/-- Every character with a digit value is a decimal digit, and at most 308 of them stand next to each
other. -/
structure Text.HasPlainDigits (s : List Char) : Prop where
  decimal : ∀ c ∈ s, isDigitLike c = true → isDecimal c = true
  short : RunsBelow isDecimal 309 s

theorem Text.HasPlainDigits.within {s t : List Char} (h : HasPlainDigits s) (ht : t <:+: s) :
    HasPlainDigits t :=
  ⟨fun c hc => h.decimal c (ht.subset hc), h.short.within ht⟩

/-- A bound on the whole numbers that are read of texts with plain digits. -/
def Number.plainBound : Nat := 10 ^ 4000

theorem Number.le_plainBound : 10 ^ 308 ≤ plainBound := by
  apply Nat.pow_le_pow_right <;> decide

theorem Number.plainBound_lt : plainBound < 10 ^ maxDigits := by
  apply Nat.pow_lt_pow_right <;> decide

theorem Number.float_lt_plainBound : (10 ^ 616 * 2 ^ 1074 + 1) * 2 ^ 972 < plainBound := by
  decide +kernel

namespace Value

/-- The value can be read of a text with plain digits. -/
def HasPlainDigits : Value → Prop
  | .nil | .bool _ | .literal _ => True
  | .int n => n.natAbs < Number.plainBound
  | .float x => ∃ n, Numeric.truncateFloat x = .ok n ∧ n.natAbs < Number.plainBound
  | .str s => Text.HasPlainDigits s.toList
  | .range r => r.start.natAbs ≤ Number.plainBound ∧ r.stop.natAbs ≤ Number.plainBound ∧ r.step = 1
  | _ => False

theorem exists_spanText {r : Span} (hr : HasPlainDigits (.range r)) :
    ∃ s : String, spanText r = .ok ("range(" ++ s) := by
  obtain ⟨hstart, hstop, hstep⟩ := hr
  obtain ⟨start, hstart⟩ := exists_intText (Nat.lt_of_le_of_lt hstart Number.plainBound_lt)
  obtain ⟨stop, hstop⟩ := exists_intText (Nat.lt_of_le_of_lt hstop Number.plainBound_lt)
  refine ⟨start ++ (", " ++ (stop ++ ")")), ?_⟩
  unfold spanText
  rw [hstart, hstop, hstep]
  exact congrArg Except.ok (by simp only [String.append_assoc])

theorem HasPlainDigits.exists_shown {v : Value} (hv : v.HasPlainDigits) : ∃ s, v.shown #[] = .ok s := by
  cases v with
  | nil | bool | float | str | literal => exact ⟨_, rfl⟩
  | int n => exact exists_intText (Nat.lt_trans hv Number.plainBound_lt)
  | range r =>
    obtain ⟨s, hs⟩ := exists_spanText hv
    exact ⟨_, hs⟩
  | list | tuple | map | function | proxy | «sealed» | version | drop | loop => exact hv.elim

/-- The text of a range starts with no number. -/
theorem leadingInt_range (s : String) : leadingInt ("range(" ++ s).toList = .ok 0 := by
  obtain ⟨rest, hrest⟩ : ∃ rest, trim ("range(" ++ s).toList = 'r' :: rest := by
    have hfront : ("range(" ++ s).toList = 'r' :: ("ange(".toList ++ s.toList) := by simp
    refine ⟨trimRight ("ange(".toList ++ s.toList), ?_⟩
    rw [hfront, trim, trimLeft_of_stops (stops_cons.mpr (by decide)), trimRight_cons,
      if_neg fun h => absurd h.2 (by decide)]
  have hnumeral : leadingNumeral ('r' :: rest) = [] := by
    have hword : ('r' :: rest).takeWhile isDigitLike = [] := List.takeWhile_cons_of_neg (by decide)
    exact hword
  unfold leadingInt
  rw [hrest, hnumeral]
  rfl

/-- An end of a range that is made at once has a whole number. -/
theorem HasPlainDigits.exists_toInt {v : Value} (hv : v.HasPlainDigits) :
    ∃ n, v.toInt #[] = .ok n ∧ n.natAbs < Number.plainBound := by
  have hzero : (0 : Int).natAbs < Number.plainBound := by
    apply Nat.pow_pos
    decide
  cases v with
  | nil | bool => exact ⟨0, rfl, hzero⟩
  | int n => exact ⟨n, rfl, hv⟩
  | float x => exact hv
  | str s =>
    obtain ⟨n, hn, hsmall⟩ := exists_leadingInt (by decide) hv.decimal hv.short
    exact ⟨n, hn, hsmall.trans_le Number.le_plainBound⟩
  | literal l => exact ⟨0, rfl, hzero⟩
  | range r =>
    obtain ⟨s, hs⟩ := exists_spanText hv
    refine ⟨0, ?_, hzero⟩
    have hwritten : (Value.range r).written #[] = .ok ("range(" ++ s) := hs
    exact bind_eq_ok_iff.mpr ⟨_, hwritten, leadingInt_range s⟩
  | list | tuple | map | function | proxy | «sealed» | version | drop | loop => exact hv.elim

end Value

/-- **Texts with plain digits are read without failing.** -/
theorem safeNumerals_plainDigits : SafeNumerals Text.HasPlainDigits Value.HasPlainDigits where
  within ht hs := hs.within ht
  word hword := by
    rcases Expr.literalWord?_cases hword with rfl | ⟨b, rfl⟩ | ⟨l, rfl⟩ <;> trivial
  text {s} hs := by
    have hchars : Text.HasPlainDigits (String.ofList s).toList := by rwa [String.toList_ofList]
    exact hchars
  whole hs hwhole := by
    obtain ⟨k, hread, hk⟩ := exists_readInt_of_isWholeNumber (by decide) hs.short hwhole
    exact ⟨k, hread, Nat.lt_of_lt_of_le hk Number.le_plainBound⟩
  number {s chars after x} hs hnumber hread := by
    obtain ⟨rfl, hstarts⟩ := Lexeme.number?_eq_some hnumber
    obtain ⟨negative, m, e, hbinary, hm, he⟩ := exists_readBinary_of_number hstarts
      (hs.short.within (List.prefix_append chars after).isInfix)
    rw [hbinary] at hread
    cases hread
    refine ⟨_, rfl, Nat.lt_of_le_of_lt (Binary64.natAbs_truncate_le negative m e) ?_⟩
    refine Nat.lt_of_le_of_lt (Nat.mul_le_mul hm ?_) Number.float_lt_plainBound
    apply Nat.pow_le_pow_right <;> omega
  range _ _ hv hw := by
    obtain ⟨start, hstart, hsmall⟩ := hv.exists_toInt
    obtain ⟨stop, hstop, hless⟩ := hw.exists_toInt
    refine ⟨start, stop, hstart, hstop, Nat.le_of_lt hsmall, ?_, rfl⟩
    have hnext := Int.natAbs_add_le stop 1
    exact hnext.trans hless
  shown hv := hv.exists_shown

end Stencil
