import Mathlib.Data.List.TakeDrop
import Stencil.Expr.Reading
import Stencil.Proofs.Markup.Lexemes

/-!
# Reading an expression, one level at a time

* `read_eq`: an expression is read by one round (`readWith`) whose inner expressions are read likewise;
  all of them are shorter, so that fuel never runs out.
* `parts_cons`: the parts of a path, one after another.
* `read_path` and its likes: what each form of text is read as.
-/

namespace Stencil.Expr

open Text

variable {s rest content after name : List Char} {c : Char}

/-! ## Parts of a path -/

theorem bracketed?_eq_some {inside : Bool} (hread : bracketed? inside s = some (content, after)) :
    s = content ++ ']' :: after := by
  induction s generalizing inside content with
  | nil => cases hread
  | cons c rest ih =>
    rw [bracketed?] at hread
    split at hread
    · next hclose =>
      simp only [Bool.and_eq_true, beq_iff_eq] at hclose
      obtain ⟨rfl, rfl⟩ := Prod.mk.inj (Option.some.inj hread)
      rw [hclose.1, List.nil_append]
    · obtain ⟨⟨front, back⟩, hfront, heq⟩ := Option.map_eq_some_iff.mp hread
      obtain ⟨rfl, rfl⟩ := Prod.mk.inj heq
      rw [ih hfront, List.cons_append]

theorem pathName?_eq_some (hread : pathName? s = some (name, after)) :
    s = name ++ after ∧ name ≠ [] := by
  have hs := List.takeWhile_append_dropWhile (p := isNameChar) (l := s)
  unfold pathName? at hread
  dsimp only at hread
  split at hread
  · cases hread
  · next hne =>
    split at hread
    · next more hmore =>
      obtain ⟨rfl, rfl⟩ := Prod.mk.inj (Option.some.inj hread)
      rw [hmore] at hs
      exact ⟨by simpa using hs.symm, by simp⟩
    · obtain ⟨rfl, rfl⟩ := Prod.mk.inj (Option.some.inj hread)
      exact ⟨hs.symm, by simpa using hne⟩

/-- Two amounts of fuel that are enough give the same parts. -/
theorem partsWithin_eq {m n : Nat} (hm : s.length ≤ m) (hn : s.length ≤ n) :
    partsWithin m s = partsWithin n s := by
  induction m generalizing n s with
  | zero =>
    cases List.eq_nil_of_length_eq_zero (Nat.le_zero.mp hm)
    cases n <;> rfl
  | succ m ih =>
    cases s with
    | nil => cases n <;> rfl
    | cons c rest =>
      rw [List.length_cons] at hm hn
      obtain ⟨n, rfl⟩ := Nat.exists_eq_succ_of_ne_zero (show n ≠ 0 by omega)
      have hlater {after : List Char} (hafter : after.length ≤ rest.length) :
          partsWithin m after = partsWithin n after := ih (by omega) (by omega)
      rw [partsWithin, partsWithin]
      split
      · next content after hbrackets =>
        split at hbrackets
        · have := congrArg List.length (bracketed?_eq_some hbrackets)
          simp only [List.length_append, List.length_cons] at this
          rw [hlater (by omega)]
        · cases hbrackets
      · split
        · next name after hname =>
          obtain ⟨hrest, hne⟩ := pathName?_eq_some hname
          have := congrArg List.length hrest
          have := List.length_pos_iff.mpr hne
          simp only [List.length_append, List.length_cons] at *
          rw [hlater (by omega)]
        · rw [hlater (Nat.le_refl _)]

/-- The first part of a path, or a character that is passed over. -/
theorem parts_cons (c : Char) (rest : List Char) :
    parts (c :: rest) =
      match if c == '[' then bracketed? false rest else none with
      | some (content, after) => .index content :: parts after
      | none =>
        match pathName? (c :: rest) with
        | some (name, after) => .name name :: parts after
        | none => parts rest := by
  have hlater {after : List Char} (hafter : after.length ≤ rest.length) :
      partsWithin rest.length after = parts after := partsWithin_eq hafter (Nat.le_refl _)
  rw [parts, List.length_cons, partsWithin]
  cases hbrackets : if c == '[' then bracketed? false rest else none with
  | some found =>
    dsimp only
    rw [hlater]
    split at hbrackets
    · have := congrArg List.length (bracketed?_eq_some hbrackets)
      simp only [List.length_append, List.length_cons] at this
      omega
    · cases hbrackets
  | none =>
    dsimp only
    cases hname : pathName? (c :: rest) with
    | some found =>
      obtain ⟨hrest, hne⟩ := pathName?_eq_some hname
      have := congrArg List.length hrest
      have := List.length_pos_iff.mpr hne
      dsimp only
      rw [hlater]
      simp only [List.length_append, List.length_cons] at *
      omega
    | none => rw [hlater (Nat.le_refl _)]

theorem parts_bracketed (hread : bracketed? false rest = some (content, after)) :
    parts ('[' :: rest) = .index content :: parts after := by
  rw [parts_cons, if_pos (by rfl), hread]

theorem parts_name (hc : c ≠ '[') (hread : pathName? (c :: rest) = some (name, after)) :
    parts (c :: rest) = .name name :: parts after := by
  rw [parts_cons, if_neg (by simpa using hc), hread]

theorem parts_dot (rest : List Char) : parts ('.' :: rest) = parts rest := by
  rw [parts_cons]
  rfl

/-- Brackets hold less than the whole text. -/
theorem length_lt_of_index_mem (hmem : .index content ∈ parts s) : content.length < s.length := by
  induction hlength : s.length using Nat.strongRecOn generalizing s with
  | ind n ih =>
    subst hlength
    cases s with
    | nil => cases hmem
    | cons c rest =>
      have hlater {after : List Char} (hafter : after.length ≤ rest.length)
          (hmem : .index content ∈ parts after) : content.length < (c :: rest).length := by
        have := ih after.length (by simpa using Nat.lt_succ_of_le hafter) hmem rfl
        rw [List.length_cons]
        omega
      rw [parts_cons] at hmem
      split at hmem
      · next front after hbrackets =>
        split at hbrackets
        · have hlength := congrArg List.length (bracketed?_eq_some hbrackets)
          simp only [List.length_append, List.length_cons] at hlength
          rcases List.mem_cons.mp hmem with heq | hmem
          · obtain rfl := Part.index.inj heq
            rw [List.length_cons]
            omega
          · exact hlater (by omega) hmem
        · cases hbrackets
      · split at hmem
        · next name after hname =>
          obtain ⟨hrest, hne⟩ := pathName?_eq_some hname
          have hlength := congrArg List.length hrest
          have hpos := List.length_pos_iff.mpr hne
          simp only [List.length_append, List.length_cons] at hlength
          rcases List.mem_cons.mp hmem with heq | hmem
          · cases heq
          · exact hlater (by omega) hmem
        · exact hlater (Nat.le_refl _) hmem

/-! ## Ends of a range -/

theorem cutDots?_eq_some {first last : List Char} (hcut : cutDots? s = some (first, last)) :
    s = first ++ '.' :: '.' :: last ∧ last ≠ [] := by
  induction s generalizing first with
  | nil => cases hcut
  | cons c rest ih =>
    unfold cutDots? at hcut
    split at hcut
    · next before behind hrest =>
      obtain ⟨rfl, rfl⟩ := Prod.mk.inj (Option.some.inj hcut)
      obtain ⟨h, hne⟩ := ih hrest
      exact ⟨by rw [h, List.cons_append], hne⟩
    · split at hcut
      · obtain ⟨rfl, rfl⟩ := Prod.mk.inj (Option.some.inj hcut)
        exact ⟨rfl, by simp⟩
      · cases hcut

theorem rangeEnds?_eq_some {first last : List Char} (hends : rangeEnds? s = some (first, last)) :
    s = '(' :: (first ++ '.' :: '.' :: last) ++ [')'] := by
  unfold rangeEnds? at hends
  split at hends
  · next rest hclose =>
    dsimp only at hends
    split at hends
    · cases hends
    · obtain ⟨hcut, -⟩ := Option.filter_eq_some_iff.mp hends
      obtain ⟨body, hbody⟩ := List.getLast?_eq_some_iff.mp hclose
      cases body with
      | nil => cases hbody
      | cons c body =>
        obtain ⟨rfl, hrest⟩ := List.cons.inj hbody
        rw [hrest] at hcut ⊢
        have hcut : cutDots? body = some (first, last) := by
          rwa [← @List.dropLast_concat _ body ')']
        rw [(cutDots?_eq_some hcut).1]
        rfl
  · cases hends

/-! ## One round -/

/-- Reads an expression, given how the ones in it are read. -/
def readWith (inner : List Char → Outcome Expr) (text : List Char) : Outcome Expr :=
  let s := trim text
  match literalWord? s with
  | some v => .ok (.value v)
  | none =>
  match quotedContent? s with
  | some content => .ok (.value (.str (String.ofList content)))
  | none =>
  if isWholeNumber s then
    ((Number.readInt s).mapError (Value.numeralFailure s)).map fun n => .value (.int n)
  else
  match rangeEnds? s with
  | some (first, last) => do between (← inner first) (← inner last)
  | none =>
  match (leadingNumber? s).bind (Number.readBinary 0) with
  | some x => .ok (.value (.float x))
  | none =>
    match parts s with
    | [] => .ok (.lookup (.value .nil) [])
    | root :: path => do
      let root ← root.toRoot inner
      let path ← path.mapM (Part.toStep inner)
      return .lookup root path

theorem length_trim_le (s : List Char) : (trim s).length ≤ s.length := by
  have hright (s : List Char) : (trimRight s).length ≤ s.length := by
    induction s with
    | nil => exact Nat.le_refl _
    | cons c rest ih =>
      rw [trimRight]
      split
      · split <;> simp
      · simpa using ih
  exact Nat.le_trans (hright _) (List.dropWhile_sublist _).length_le

theorem mapM_congr {α β : Type} {f g : α → Outcome β} {l : List α} (h : ∀ a ∈ l, f a = g a) :
    l.mapM f = l.mapM g := by
  induction l with
  | nil => rfl
  | cons a l ih =>
    rw [List.mapM_cons, List.mapM_cons, h a List.mem_cons_self,
      ih fun b hb => h b (List.mem_cons_of_mem _ hb)]

/-- Only shorter texts are read inside. -/
theorem readWith_congr {f g : List Char → Outcome Expr} (h : ∀ t, t.length < s.length → f t = g t) :
    readWith f s = readWith g s := by
  have hinner {t : List Char} (ht : t.length < (trim s).length) : f t = g t :=
    h t (Nat.lt_of_lt_of_le ht (length_trim_le s))
  have hpart {part : Part} (hpart : part ∈ parts (trim s)) :
      part.toRoot f = part.toRoot g ∧ part.toStep f = part.toStep g := by
    cases part with
    | name name => exact ⟨rfl, rfl⟩
    | index content =>
      rw [Part.toRoot, Part.toRoot, Part.toStep, Part.toStep,
        hinner (length_lt_of_index_mem hpart)]
      exact ⟨rfl, rfl⟩
  unfold readWith
  dsimp only
  split
  · rfl
  split
  · rfl
  split
  · rfl
  split
  · next first last hends =>
    have hlength := congrArg List.length (rangeEnds?_eq_some hends)
    simp only [List.length_append, List.length_cons] at hlength
    rw [hinner (t := first) (by omega), hinner (t := last) (by omega)]
  split
  · rfl
  split
  · rfl
  · next root path hparts =>
    rw [(hpart (hparts ▸ List.mem_cons_self)).1,
      mapM_congr fun part hmem => (hpart (hparts ▸ List.mem_cons_of_mem _ hmem)).2]

theorem readWithin_eq {m n : Nat} (hm : s.length < m) (hn : s.length < n) :
    readWithin m s = readWithin n s := by
  induction m generalizing n s with
  | zero => exact absurd hm (Nat.not_lt_zero _)
  | succ m ih =>
    obtain ⟨n, rfl⟩ := Nat.exists_eq_succ_of_ne_zero (show n ≠ 0 by omega)
    exact readWith_congr fun t ht => ih (by omega) (by omega)

/-- **An expression is read one level at a time.** -/
theorem read_eq (s : List Char) : read s = readWith read s :=
  readWith_congr fun _ ht => readWithin_eq ht (Nat.lt_succ_self _)

/-! ## What a text is taken for -/

/-- The words that are no variables; nothing at all is one of them. -/
def literalWords : List (List Char) :=
  [[], ['n', 'i', 'l'], ['n', 'u', 'l', 'l'], ['t', 'r', 'u', 'e'], ['f', 'a', 'l', 's', 'e'],
    ['b', 'l', 'a', 'n', 'k'], ['e', 'm', 'p', 't', 'y']]

theorem literalWord?_eq_none (hs : s ∉ literalWords) : literalWord? s = none := by
  have hne {word : String} (hword : word.toList ∈ literalWords) : String.ofList s ≠ word := by
    rintro rfl
    rw [String.toList_ofList] at hword
    exact hs hword
  have hempty : s.isEmpty = false := by
    cases s with
    | nil => exact absurd List.mem_cons_self hs
    | cons c rest => rfl
  unfold literalWord?
  rw [if_neg (by simp [hempty])]
  split
  all_goals first
    | rfl
    | next heq => exact absurd heq (hne (by decide))

/-- What no literal word starts with tells that a text is none. -/
theorem not_mem_literalWords (hc : c ∉ ['n', 't', 'f', 'b', 'e']) : c :: rest ∉ literalWords := by
  have hheads : ∀ word ∈ literalWords, ∀ d ∈ word.head?, d ∈ ['n', 't', 'f', 'b', 'e'] := by decide
  exact fun hmem => hc (hheads _ hmem c rfl)

theorem quotedContent?_eq_none (hc : c ≠ '\'' ∧ c ≠ '"') : quotedContent? (c :: rest) = none := by
  rw [quotedContent?, if_neg (by simpa using hc)]

theorem isWholeNumber_eq_false (hc : isDecimal c = false) (hminus : c ≠ '-') :
    isWholeNumber (c :: rest) = false := by
  unfold isWholeNumber
  split
  · next more heq => exact absurd (List.cons.inj heq).1 hminus
  · simp [hc]

theorem rangeEnds?_eq_none (hc : c ≠ '(') : rangeEnds? (c :: rest) = none := by
  unfold rangeEnds?
  split
  · next more heq hclose => exact absurd (List.cons.inj heq).1 hc
  · rfl

theorem read_quoted {q : Char} (hq : q = '\'' ∨ q = '"') (content : List Char) :
    read (q :: content ++ [q]) = .ok (.value (.str (String.ofList content))) := by
  have hblank : isBlank q = false := by rcases hq with rfl | rfl <;> decide
  have hstart : q ∉ ['n', 't', 'f', 'b', 'e'] := by rcases hq with rfl | rfl <;> decide
  have htrim : trim (q :: content ++ [q]) = q :: content ++ [q] := by
    refine trim_of_ends (by simpa using hblank) ?_
    rw [List.getLast?_concat]
    rintro _ ⟨⟩
    exact hblank
  have hcontent : quotedContent? (q :: (content ++ [q])) = some content := by
    rw [quotedContent?, if_pos (by simpa using hq), List.getLast?_concat]
    simp
  rw [read_eq, readWith, htrim]
  rw [List.cons_append, literalWord?_eq_none (not_mem_literalWords hstart), hcontent]

theorem trim_paren (body : List Char) : trim ('(' :: body ++ [')']) = '(' :: body ++ [')'] := by
  refine trim_of_ends (by simp; decide) ?_
  rw [List.getLast?_concat]
  rintro _ ⟨⟩
  decide

theorem read_range {first last : List Char} (hends : rangeEnds? s = some (first, last)) :
    read s = (do between (← read first) (← read last)) := by
  have htext := rangeEnds?_eq_some hends
  have htrim : trim s = s := by rw [htext, trim_paren]
  rw [read_eq, readWith, htrim, hends]
  rw [htext, List.cons_append, literalWord?_eq_none (not_mem_literalWords (by decide)),
    quotedContent?_eq_none (by decide), isWholeNumber_eq_false (by decide) (by decide)]
  rfl

/-- What is nothing else is a path. -/
theorem read_parts (htrim : trim s = s) (hword : s ∉ literalWords)
    (hquoted : quotedContent? s = none) (hwhole : isWholeNumber s = false)
    (hrange : rangeEnds? s = none) (hnumber : leadingNumber? s = none) :
    read s =
      match parts s with
      | [] => .ok (.lookup (.value .nil) [])
      | root :: path => do
        let root ← root.toRoot read
        let path ← path.mapM (Part.toStep read)
        return .lookup root path := by
  rw [read_eq, readWith, htrim, literalWord?_eq_none hword, hquoted, hwhole, hrange, hnumber]
  rfl

/-- Everything that starts like an identifier and is no literal word is a path. -/
theorem read_path (hc : isIdentifierStart c = true) (hword : c :: rest ∉ literalWords)
    (hend : ∀ d ∈ (c :: rest).getLast?, isBlank d = false) :
    read (c :: rest) =
      match parts (c :: rest) with
      | [] => .ok (.lookup (.value .nil) [])
      | root :: path => do
        let root ← root.toRoot read
        let path ← path.mapM (Part.toStep read)
        return .lookup root path := by
  have hdigit := isDecimal_of_isIdentifierStart hc
  have hne {d : Char} (hd : isIdentifierStart d = false) : c ≠ d := by
    rintro rfl
    rw [hc] at hd
    cases hd
  have htrim : trim (c :: rest) = c :: rest := by
    refine trim_of_ends ?_ hend
    rw [stops_cons]
    exact isBlank_of_isNameChar (isNameChar_of_isIdentifierStart hc)
  have hnumber : leadingNumber? (c :: rest) = none := by
    rw [leadingNumber?, Lexeme.number?_eq_none hdigit fun h => absurd h (hne (by decide))]
  exact read_parts htrim hword (quotedContent?_eq_none ⟨hne (by decide), hne (by decide)⟩)
    (isWholeNumber_eq_false hdigit (hne (by decide))) (rangeEnds?_eq_none (hne (by decide))) hnumber

end Stencil.Expr
