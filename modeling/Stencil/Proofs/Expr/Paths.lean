import Stencil.Proofs.Expr.Numerals
import Stencil.Proofs.Expr.Reading

/-!
# Paths of variables

* `Steps`: the steps of a path as they are written: names after dots, and whole numbers, quoted strings
  and further paths in brackets.
* `closes` says when brackets end where their content does. The scanner of paths counts brackets up to
  one level and knows no quotes, so that not all contents do (`bracketed?_eq_some_iff`).
* `read_variable`: a path all of whose brackets end so is read as it is written.
-/

namespace Stencil.Expr

open Text

/-! ## Names, numbers and strings -/

/-- An identifier: a letter or an underscore, name characters, and maybe a question mark. -/
structure Identifier where
  first : Char
  others : List Char
  asked : Bool
  isStart : isIdentifierStart first = true
  areNames : ∀ c ∈ others, isNameChar c = true

/-- A whole number: maybe a minus sign, and digits. -/
structure Numeral where
  negative : Bool
  digits : List Char
  nonempty : digits ≠ []
  areDigits : ∀ c ∈ digits, isDecimal c = true

/-- A quoted string. -/
structure Quotation where
  quote : Char
  content : List Char
  isQuote : quote = '\'' ∨ quote = '"'
  closed : quote ∉ content

def Identifier.chars (n : Identifier) : List Char :=
  n.first :: (n.others ++ if n.asked then ['?'] else [])

def Identifier.text (n : Identifier) : String := String.ofList n.chars

def Numeral.chars (n : Numeral) : List Char := (if n.negative then ['-'] else []) ++ n.digits

def Numeral.value (n : Numeral) : Int :=
  let magnitude := n.digits.foldl (fun m c => 10 * m + (digitValue? c).getD 0) 0
  if n.negative then -(magnitude : Int) else magnitude

def Quotation.chars (q : Quotation) : List Char := q.quote :: q.content ++ [q.quote]

def Quotation.text (q : Quotation) : String := String.ofList q.content

/-- An identifier is one name of a path, unless more of a name follows it. -/
theorem pathName?_identifier (n : Identifier) {rest : List Char}
    (hrest : Stops (fun c => isNameChar c || c == '?') rest) :
    pathName? (n.chars ++ rest) = some (n.chars, rest) := by
  have hnames : ∀ c ∈ n.first :: n.others, isNameChar c = true :=
    List.forall_mem_cons.mpr ⟨isNameChar_of_isIdentifierStart n.isStart, n.areNames⟩
  have hchars : n.chars ++ rest =
      (n.first :: n.others) ++ ((if n.asked then ['?'] else []) ++ rest) := by
    simp [Identifier.chars]
  have hstops : Stops isNameChar ((if n.asked then ['?'] else []) ++ rest) := by
    split
    · simp; decide
    · exact hrest.of_imp fun c hc => by simp [hc]
  unfold pathName?
  dsimp only
  rw [hchars, takeWhile_run hnames hstops, dropWhile_run hnames hstops, if_neg (by simp)]
  cases hasked : n.asked with
  | true => simp [Identifier.chars, hasked]
  | false =>
    split
    · next after heq =>
      have heq : rest = '?' :: after := by simpa using heq
      rw [heq] at hrest
      simp at hrest
    · simp [Identifier.chars, hasked]

theorem Identifier.getLast?_append (n : Identifier) (front : List Char) :
    ∀ c ∈ (front ++ n.chars).getLast?, isBlank c = false := by
  intro c hc
  have hne : n.chars ≠ [] := List.cons_ne_nil _ _
  rw [List.getLast?_append_of_ne_nil _ hne] at hc
  rcases List.mem_cons.mp (List.mem_of_getLast? hc) with rfl | hmem
  · exact isBlank_of_isNameChar (isNameChar_of_isIdentifierStart n.isStart)
  rcases List.mem_append.mp hmem with hmem | hmem
  · exact isBlank_of_isNameChar (n.areNames c hmem)
  · split at hmem
    · rw [List.mem_singleton.mp hmem]
      decide
    · cases hmem

namespace Numeral

variable (n : Numeral)

theorem head_chars : ∃ c rest, n.chars = c :: rest ∧ (c = '-' ∨ isDecimal c = true) := by
  obtain ⟨negative, digits, hne, hdigits⟩ := n
  obtain ⟨d, more, rfl⟩ := List.exists_cons_of_ne_nil hne
  cases negative with
  | true => exact ⟨'-', _, rfl, .inl rfl⟩
  | false => exact ⟨d, _, rfl, .inr (hdigits d List.mem_cons_self)⟩

theorem sign_mem : (if n.negative then ['-'] else []) ∈ numeralSigns := by
  split <;> decide

theorem trim_chars : trim n.chars = n.chars :=
  trim_signed n.sign_mem n.nonempty
    (fun d hd => isBlank_of_isDecimal (n.areDigits d (List.mem_of_head? hd)))
    fun d hd => isBlank_of_isDecimal (n.areDigits d (List.mem_of_getLast? hd))

theorem value_eq : n.value = denoted (if n.negative then ['-'] else []) n.digits := by
  rw [← signed_ofDigits]
  simp only [value, Binary64.signed, Number.ofDigits, Number.digitValues, List.foldl_map]
  cases n.negative <;> rfl

theorem isWholeNumber_chars : isWholeNumber n.chars = true := by
  obtain ⟨negative, digits, hne, hdigits⟩ := n
  obtain ⟨d, more, rfl⟩ := List.exists_cons_of_ne_nil hne
  cases negative with
  | true =>
    show isWholeNumber ('-' :: d :: more) = true
    rw [isWholeNumber]
    simpa using hdigits
  | false =>
    have hminus : d ≠ '-' := by
      rintro rfl
      exact absurd (hdigits '-' List.mem_cons_self) (by decide)
    show isWholeNumber (d :: more) = true
    rw [isWholeNumber.eq_2 _ fun _ heq => hminus (List.cons.inj heq).1]
    simpa using hdigits

theorem readInt_chars (hshort : n.digits.length ≤ Number.maxDigits) :
    Number.readInt n.chars = .ok n.value := by
  rw [chars, readInt_digits n.sign_mem n.nonempty n.areDigits hshort, value_eq]

end Numeral

/-- A whole number is what it stands for, if it has not too many digits. -/
theorem read_numeral (n : Numeral) (hshort : n.digits.length ≤ Number.maxDigits) :
    read n.chars = .ok (.value (.int n.value)) := by
  obtain ⟨c, rest, hchars, hc⟩ := n.head_chars
  -- neither a sign nor a digit starts a literal word or a quoted string
  have hother : ∀ d ∈ ['n', 't', 'f', 'b', 'e', '\'', '"'], d ≠ '-' ∧ isDecimal d = false := by decide
  have hnone : ∀ d ∈ ['n', 't', 'f', 'b', 'e', '\'', '"'], c ≠ d := by
    rintro d hd rfl
    obtain ⟨hminus, hdigit⟩ := hother c hd
    rcases hc with h | h
    · exact hminus h
    · rw [hdigit] at h
      cases h
  have hword : n.chars ∉ literalWords := by
    rw [hchars]
    refine not_mem_literalWords fun h => hnone c ?_ rfl
    have hsubset : ∀ d ∈ ['n', 't', 'f', 'b', 'e'], d ∈ ['n', 't', 'f', 'b', 'e', '\'', '"'] := by decide
    exact hsubset c h
  have hquoted : quotedContent? n.chars = none := by
    rw [hchars]
    exact quotedContent?_eq_none ⟨hnone _ (by decide), hnone _ (by decide)⟩
  rw [read_eq, readWith, n.trim_chars, literalWord?_eq_none hword, hquoted,
    if_pos n.isWholeNumber_chars, n.readInt_chars hshort]
  rfl

theorem read_quotation (q : Quotation) : read q.chars = .ok (.value (.str q.text)) :=
  read_quoted q.isQuote q.content

/-! ## Brackets -/

/-- Whether brackets end where this content of theirs does: every closing bracket in it ends an inner
pair, which the first one does; `inside` says whether such a pair is open. -/
def closes (inside : Bool) : List Char → Bool
  | [] => !inside
  | c :: rest =>
    if c == ']' then inside && closes false rest
    else closes (inside || c == '[') rest

theorem bracketed?_eq_some_iff {inside : Bool} {content rest : List Char} :
    bracketed? inside (content ++ ']' :: rest) = some (content, rest) ↔
      closes inside content = true := by
  induction content generalizing inside with
  | nil =>
    cases inside with
    | false => simp [bracketed?, closes]
    | true =>
      constructor
      · intro hread
        rw [List.nil_append, bracketed?] at hread
        simp at hread
      · intro hclosed
        cases hclosed
  | cons c content ih =>
    rw [List.cons_append, bracketed?, closes]
    by_cases hc : c = ']'
    · subst hc
      cases inside with
      | false => simp
      | true => simp [Option.map_eq_some_iff, ih]
    · have hopens : (inside && c != ']' || !inside && c == '[') = (inside || c == '[') := by
        cases inside <;> simp [hc]
      simp [hc, hopens, Option.map_eq_some_iff, ih]

/-- Without brackets of its own, a content ends where it should. -/
theorem closes_of_forall {content : List Char} (h : ∀ c ∈ content, c ≠ '[' ∧ c ≠ ']') :
    closes false content = true := by
  induction content with
  | nil => rfl
  | cons c content ih =>
    obtain ⟨⟨hopen, hclose⟩, hlater⟩ := List.forall_mem_cons.mp h
    have hopens : (c == '[') = false := by simpa using hopen
    rw [closes, if_neg (by simpa using hclose), hopens]
    exact ih hlater

/-! ## Steps -/

/-- The steps of a path. -/
inductive Steps where
  | done
  | name (n : Identifier) (rest : Steps)
  | number (n : Numeral) (rest : Steps)
  | quoted (q : Quotation) (rest : Steps)
  | path (root : Identifier) (inner rest : Steps)

namespace Steps

def chars : Steps → List Char
  | done => []
  | name n rest => '.' :: (n.chars ++ rest.chars)
  | number n rest => '[' :: (n.chars ++ ']' :: rest.chars)
  | quoted q rest => '[' :: (q.chars ++ ']' :: rest.chars)
  | path root inner rest => '[' :: ((root.chars ++ inner.chars) ++ ']' :: rest.chars)

def toPath : Steps → List Step
  | done => []
  | name n rest => .name n.text :: rest.toPath
  | number n rest => .index (.value (.int n.value)) :: rest.toPath
  | quoted q rest => .index (.value (.str q.text)) :: rest.toPath
  | path root inner rest => .index (.lookup (.value (.str root.text)) inner.toPath) :: rest.toPath

/-- No path in brackets is a literal word. -/
def NoWords : Steps → Prop
  | done => True
  | name _ rest | number _ rest | quoted _ rest => rest.NoWords
  | path root inner rest =>
    root.chars ++ inner.chars ∉ literalWords ∧ inner.NoWords ∧ rest.NoWords

/-- The contents of all brackets, those of inner paths included. -/
def contents : Steps → List (List Char)
  | done => []
  | name _ rest => rest.contents
  | number n rest => n.chars :: rest.contents
  | quoted q rest => q.chars :: rest.contents
  | path root inner rest => (root.chars ++ inner.chars) :: (inner.contents ++ rest.contents)

/-- The whole numbers in brackets, those of inner paths included. -/
def numerals : Steps → List Numeral
  | done => []
  | name _ rest | quoted _ rest => rest.numerals
  | number n rest => n :: rest.numerals
  | path _ inner rest => inner.numerals ++ rest.numerals

/-- All brackets end where their contents do, and the whole numbers are not too long. -/
structure Readable (steps : Steps) : Prop where
  closes : ∀ content ∈ steps.contents, Expr.closes false content = true
  short : ∀ n ∈ steps.numerals, n.digits.length ≤ Number.maxDigits

theorem Readable.of_subset {steps inner : Steps} (h : steps.Readable)
    (hcontents : inner.contents ⊆ steps.contents) (hnumerals : inner.numerals ⊆ steps.numerals) :
    inner.Readable :=
  ⟨fun content hmem => h.closes content (hcontents hmem), fun n hmem => h.short n (hnumerals hmem)⟩

/-! ### Taking steps off a text -/

theorem stops_chars (steps : Steps) : Stops (fun c => isNameChar c || c == '?') steps.chars := by
  cases steps with
  | done => exact stops_nil
  | name | number | quoted | path => rw [chars, stops_cons]; decide

theorem getLast?_append_chars (steps : Steps) {front : List Char}
    (hfront : ∀ c ∈ front.getLast?, isBlank c = false) :
    ∀ c ∈ (front ++ steps.chars).getLast?, isBlank c = false := by
  have hbracket (front content : List Char) :
      ∀ c ∈ (front ++ '[' :: (content ++ [']'])).getLast?, isBlank c = false := by
    rw [← List.cons_append, ← List.append_assoc, List.getLast?_concat]
    rintro _ ⟨⟩
    decide
  -- induction on the steps, each of which is put behind what is there
  induction steps generalizing front with
  | done => rwa [chars, List.append_nil]
  | name n rest ih =>
    rw [chars, ← List.cons_append, ← List.append_assoc]
    refine ih fun c hc => ?_
    rw [← List.singleton_append, ← List.append_assoc] at hc
    exact n.getLast?_append _ c hc
  | number n rest ih => simpa [chars] using ih (hbracket front n.chars)
  | quoted q rest ih => simpa [chars] using ih (hbracket front q.chars)
  | path root inner rest _ ih =>
    simpa [chars] using ih (hbracket front (root.chars ++ inner.chars))

theorem parts_identifier (n : Identifier) {rest : List Char}
    (hrest : Stops (fun c => isNameChar c || c == '?') rest) :
    parts (n.chars ++ rest) = .name n.chars :: parts rest := by
  refine parts_name ?_ (pathName?_identifier n hrest)
  intro h
  have := n.isStart
  rw [h] at this
  exact absurd this (by decide)

/-- Brackets that end where their content does are one step. -/
theorem mapM_bracket {content rest : List Char} {key : Expr} {path : List Step}
    (hcloses : Expr.closes false content = true) (hkey : read content = .ok key)
    (hrest : (parts rest).mapM (Part.toStep read) = .ok path) :
    (parts ('[' :: (content ++ ']' :: rest))).mapM (Part.toStep read) =
      .ok (.index key :: path) := by
  rw [parts_bracketed (bracketed?_eq_some_iff.mpr hcloses), List.mapM_cons, hrest, Part.toStep, hkey]
  rfl

/-- A root and steps that are read are a path. -/
theorem read_of_mapM (root : Identifier) {steps : Steps} {path : List Step}
    (hword : root.chars ++ steps.chars ∉ literalWords)
    (hsteps : (parts steps.chars).mapM (Part.toStep read) = .ok path) :
    read (root.chars ++ steps.chars) = .ok (.lookup (.value (.str root.text)) path) := by
  have hend : ∀ c ∈ (root.chars ++ steps.chars).getLast?, isBlank c = false :=
    steps.getLast?_append_chars (root.getLast?_append [])
  have hparts := parts_identifier root steps.stops_chars
  have hchars : root.chars ++ steps.chars =
    root.first :: (root.others ++ (if root.asked then ['?'] else []) ++ steps.chars) := rfl
  rw [hchars] at hword hend hparts ⊢
  rw [read_path root.isStart hword hend, hparts]
  dsimp only
  rw [hsteps]
  rfl

/-- The steps of a path are read as they are written, those of inner paths included. -/
theorem mapM_parts (steps : Steps) (hwords : steps.NoWords) (h : steps.Readable) :
    (parts steps.chars).mapM (Part.toStep read) = .ok steps.toPath := by
  induction steps with
  | done => rfl
  | name n rest ih =>
    have hrest := ih hwords (h.of_subset (List.Subset.refl _) (List.Subset.refl _))
    rw [chars, parts_dot, parts_identifier n rest.stops_chars, List.mapM_cons, hrest]
    rfl
  | number n rest ih =>
    have hrest := ih hwords (h.of_subset (List.subset_cons_self _ _) (List.subset_cons_self _ _))
    exact mapM_bracket (h.closes _ List.mem_cons_self)
      (read_numeral n (h.short _ List.mem_cons_self)) hrest
  | quoted q rest ih =>
    have hrest := ih hwords (h.of_subset (List.subset_cons_self _ _) (List.Subset.refl _))
    exact mapM_bracket (h.closes _ List.mem_cons_self) (read_quotation q) hrest
  | path root inner rest ihinner ihrest =>
    obtain ⟨hword, hwordsInner, hwordsRest⟩ := hwords
    have hinner := ihinner hwordsInner (h.of_subset
      (List.subset_cons_of_subset _ (List.subset_append_left _ _)) (List.subset_append_left _ _))
    have hrest := ihrest hwordsRest (h.of_subset
      (List.subset_cons_of_subset _ (List.subset_append_right _ _)) (List.subset_append_right _ _))
    exact mapM_bracket (h.closes _ List.mem_cons_self) (read_of_mapM root hword hinner) hrest

end Steps

/-! ## Paths -/

/-- A step's bit tells whether it may fall back to a command. -/
theorem testBit_commandFlags (path : List Step) (i : Nat) :
    (Step.commandFlags path).testBit i = path[i]?.any Step.allowsCommand := by
  induction path generalizing i with
  | nil => simp [Step.commandFlags]
  | cons step path ih =>
    have hbit : (if step.allowsCommand then 1 else 0) < 2 := by split <;> decide
    cases i with
    | zero =>
      rw [Step.commandFlags, Nat.testBit_zero]
      cases hcommand : step.allowsCommand <;> simp [hcommand, Nat.add_mul_mod_self_left]
    | succ i =>
      rw [Step.commandFlags, Nat.testBit_succ, Nat.add_mul_div_left _ _ (by decide),
        Nat.div_eq_of_lt hbit, Nat.zero_add, ih, List.getElem?_cons_succ]

/-- **A path is read as it is written**, when all its brackets end where their contents do. Its bits
tell which steps are a size, a first or a last that is not in brackets. -/
theorem read_variable (root : Identifier) (steps : Steps)
    (hword : root.chars ++ steps.chars ∉ literalWords) (hwords : steps.NoWords)
    (hreadable : steps.Readable) :
    read (root.chars ++ steps.chars) = .ok (.lookup (.value (.str root.text)) steps.toPath) ∧
      ∀ i, (Step.commandFlags steps.toPath).testBit i = true ↔
        ∃ name ∈ ["size", "first", "last"], steps.toPath[i]? = some (.name name) := by
  refine ⟨Steps.read_of_mapM root hword (steps.mapM_parts hwords hreadable), fun i => ?_⟩
  rw [testBit_commandFlags, Option.any_eq_true]
  constructor
  · rintro ⟨step, hstep, hcommand⟩
    cases step with
    | name s =>
      refine ⟨s, ?_, hstep⟩
      simpa [Step.allowsCommand, isCommand, or_assoc] using hcommand
    | index e => cases hcommand
  · rintro ⟨name, hname, hstep⟩
    refine ⟨_, hstep, ?_⟩
    simpa [Step.allowsCommand, isCommand, or_assoc] using hname

def Identifier.letter (c : Char) (hc : isIdentifierStart c = true := by decide) : Identifier :=
  ⟨c, [], false, hc, nofun⟩

/-- The steps of `a[0]["x[y]"][b[c].d].size`. -/
def sampleSteps : Steps :=
  .number ⟨false, ['0'], nofun, by decide⟩ <|
    .quoted ⟨'"', ['x', '[', 'y', ']'], .inr rfl, by decide⟩ <|
      .path (.letter 'b') (.path (.letter 'c') .done (.name (.letter 'd') .done)) <|
        .name ⟨'s', ['i', 'z', 'e'], false, by decide, by decide⟩ .done

theorem read_variable_sampleSteps :
    read "a[0][\"x[y]\"][b[c].d].size".toList =
        .ok (.lookup (.value (.str "a")) [.index (.value (.int 0)), .index (.value (.str "x[y]")),
          .index (.lookup (.value (.str "b")) [.index (.lookup (.value (.str "c")) []), .name "d"]),
          .name "size"]) ∧
      Step.commandFlags sampleSteps.toPath = 8 :=
  ⟨(read_variable (.letter 'a') sampleSteps (by decide)
    ⟨by decide, ⟨by decide, trivial, trivial⟩, trivial⟩ ⟨by decide, by decide⟩).1, rfl⟩

/-- The steps of `a[b[c[d]]]`. -/
def deepSteps : Steps :=
  .path (.letter 'b') (.path (.letter 'c') (.path (.letter 'd') .done .done) .done) .done

/-- Brackets in brackets in brackets are not told apart: the innermost ones end the middle ones. -/
theorem read_deepSteps :
    deepSteps.chars = "[b[c[d]]]".toList ∧ deepSteps.NoWords ∧
      read ('a' :: deepSteps.chars) =
        .ok (.lookup (.value (.str "a")) [.index (.lookup (.value (.str "b")) [.name "c",
          .index (.lookup (.value (.str "d")) [])])]) ∧
      read ('a' :: deepSteps.chars) ≠ .ok (.lookup (.value (.str "a")) deepSteps.toPath) := by
  have hread : read ('a' :: deepSteps.chars) =
      .ok (.lookup (.value (.str "a")) [.index (.lookup (.value (.str "b")) [.name "c",
        .index (.lookup (.value (.str "d")) [])])]) := by rfl
  refine ⟨by decide, ⟨by decide, ⟨by decide, ⟨by decide, trivial, trivial⟩, trivial⟩, trivial⟩,
    hread, ?_⟩
  rw [hread]
  nofun

end Stencil.Expr
