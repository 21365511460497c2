import Stencil.Proofs.Expr.Paths
import Stencil.Proofs.Expr.Ranges
import Stencil.Proofs.Markup.Chunks
import Stencil.Proofs.Markup.Writing

/-!
# Expressions in their canonical form

Literal words, whole numbers, strings in single quotes, paths of plain names and whole numbers, and
ranges between numbers and paths, each with its text (`chars`), what it stands for (`toExpr`), and the
lexemes it is made of (`lexemes`).

* `Expression.read_chars`: the text is read as what it stands for.
* `Expression.forms`, `Expression.spelling_lexemes`: the lexemes form an expression and spell the text.
-/

namespace Stencil.Canonical

open Text Lexeme Grammar

/-! ## Names and numbers -/

/-- The words that are no names in conditions. -/
def reservedWords : List (List Char) := containsWord :: Fragment.joiningWords

/-- A plain name: a letter or an underscore, and characters of words. -/
structure Name where
  first : Char
  others : List Char
  isStart : isIdentifierStart first = true
  areWord : ∀ c ∈ others, isWordChar c = true
  unreserved : first :: others ∉ reservedWords

/-- A whole number that is not too long to be read. -/
structure Integer extends Expr.Numeral where
  short : digits.length ≤ Number.maxDigits

namespace Name

variable (n : Name)

def chars : List Char := n.first :: n.others

def text : String := String.ofList n.chars

def lexeme : Lexeme := ⟨.identifier, n.chars⟩

/-- A name is an identifier without a question mark. -/
def toIdentifier : Expr.Identifier :=
  ⟨n.first, n.others, false, n.isStart, fun c hc => by simp [isNameChar, n.areWord c hc]⟩

@[simp] theorem chars_toIdentifier : n.toIdentifier.chars = n.chars := by
  simp [toIdentifier, Expr.Identifier.chars, chars]

@[simp] theorem text_toIdentifier : n.toIdentifier.text = n.text := by
  simp [Expr.Identifier.text, text]

theorem plain : Plain n.lexeme :=
  .word n.isStart n.areWord fun h => n.unreserved (h ▸ List.mem_cons_self)

theorem isWordChar_of_mem : ∀ c ∈ n.chars, isWordChar c = true := by
  refine List.forall_mem_cons.mpr ⟨?_, n.areWord⟩
  have hname := isNameChar_of_isIdentifierStart n.isStart
  have hhyphen : n.first ≠ '-' := by
    intro h
    have := n.isStart
    rw [h] at this
    exact absurd this (by decide)
  simpa [isNameChar, hhyphen] using hname

theorem not_mem_of_isWordChar {c : Char} (hc : isWordChar c = false) : c ∉ n.chars := fun h => by
  rw [n.isWordChar_of_mem c h] at hc
  cases hc

end Name

namespace Integer

variable (n : Integer)

def lexeme : Lexeme := ⟨.number, n.chars⟩

theorem plain : Plain n.lexeme :=
  .whole (by cases n.negative <;> simp) n.nonempty n.areDigits

theorem not_mem_chars {c : Char} (hc : isDecimal c = false) (hdash : c ≠ '-') : c ∉ n.chars := by
  intro h
  rcases List.mem_append.mp h with h | h
  · split at h
    · exact hdash (List.mem_singleton.mp h)
    · cases h
  · rw [n.areDigits c h] at hc
    cases hc

end Integer

/-! ## Paths -/

/-- A step of a path. -/
inductive Key where
  | name (n : Name)
  | index (n : Integer)

namespace Key

def chars : Key → List Char
  | name n => '.' :: n.chars
  | index n => '[' :: (n.chars ++ [']'])

def toStep : Key → Step
  | name n => .name n.text
  | index n => .index (.value (.int n.value))

def lexemes : Key → List Lexeme
  | name n => [dot, n.lexeme]
  | index n => [openSquare, n.lexeme, closeSquare]

/-- Keys as steps in general. -/
def toSteps : List Key → Expr.Steps
  | [] => .done
  | name n :: rest => .name n.toIdentifier (toSteps rest)
  | index n :: rest => .number n.toNumeral (toSteps rest)

theorem chars_toSteps (keys : List Key) : (toSteps keys).chars = keys.flatMap chars := by
  induction keys with
  | nil => rfl
  | cons key keys ih => cases key <;> simp [toSteps, Expr.Steps.chars, chars, ih]

theorem toPath_toSteps (keys : List Key) : (toSteps keys).toPath = keys.map toStep := by
  induction keys with
  | nil => rfl
  | cons key keys ih => cases key <;> simp [toSteps, Expr.Steps.toPath, toStep, ih]

theorem noWords_toSteps (keys : List Key) : (toSteps keys).NoWords := by
  induction keys with
  | nil => trivial
  | cons key keys ih => cases key <;> exact ih

theorem readable_toSteps (keys : List Key) : (toSteps keys).Readable := by
  have hcloses (n : Integer) : Expr.closes false n.chars = true := by
    refine Expr.closes_of_forall fun c hc => ⟨?_, ?_⟩ <;> rintro rfl <;>
      exact n.not_mem_chars (by decide) (by decide) hc
  induction keys with
  | nil => exact ⟨nofun, nofun⟩
  | cons key keys ih =>
    cases key with
    | name n => exact ⟨ih.closes, ih.short⟩
    | index n =>
      exact ⟨List.forall_mem_cons.mpr ⟨hcloses n, ih.closes⟩, List.forall_mem_cons.mpr ⟨n.short, ih.short⟩⟩

theorem forms (keys : List Key) : Forms .steps (keys.flatMap lexemes) := by
  induction keys with
  | nil => exact .done
  | cons key keys ih =>
    cases key with
    | name n => exact .name rfl ih
    | index n => exact .index (.literal (.inr rfl)) ih

@[simp] theorem spelling_lexemes (key : Key) : spelling key.lexemes = key.chars := by
  cases key <;> simp [lexemes, chars, dot, openSquare, closeSquare, Name.lexeme, Integer.lexeme]

theorem plain (key : Key) : ∀ l ∈ key.lexemes, Plain l ∧ l.kind ≠ .string := by
  cases key with
  | name n =>
    simp only [lexemes, List.mem_cons, List.not_mem_nil, or_false]
    rintro l (rfl | rfl)
    · exact ⟨.single rfl (by decide), by decide⟩
    · exact ⟨n.plain, nofun⟩
  | index n =>
    simp only [lexemes, List.mem_cons, List.not_mem_nil, or_false]
    rintro l (rfl | rfl | rfl)
    · exact ⟨.single rfl (by decide), by decide⟩
    · exact ⟨n.plain, nofun⟩
    · exact ⟨.single rfl (by decide), by decide⟩

end Key

/-- A path that is no literal word. -/
structure Path where
  root : Name
  keys : List Key
  notLiteral : root.chars ++ keys.flatMap Key.chars ∉ Expr.literalWords

namespace Path

variable (p : Path)

def chars : List Char := p.root.chars ++ p.keys.flatMap Key.chars

def toExpr : Expr := .lookup (.value (.str p.root.text)) (p.keys.map Key.toStep)

def lexemes : List Lexeme := p.root.lexeme :: p.keys.flatMap Key.lexemes

theorem read_chars : Expr.read p.chars = .ok p.toExpr := by
  have hchars : p.chars = p.root.toIdentifier.chars ++ (Key.toSteps p.keys).chars := by
    rw [Name.chars_toIdentifier, Key.chars_toSteps, chars]
  have hword := p.notLiteral
  rw [← chars, hchars] at hword
  rw [hchars, Expr.Steps.read_of_mapM _ hword
    ((Key.toSteps p.keys).mapM_parts (Key.noWords_toSteps _) (Key.readable_toSteps _)),
    Name.text_toIdentifier, Key.toPath_toSteps, toExpr]

theorem forms : Forms .expression p.lexemes := .named rfl (Key.forms p.keys)

theorem spelling_lexemes : spelling p.lexemes = p.chars := by
  have hkeys (keys : List Key) : spelling (keys.flatMap Key.lexemes) = keys.flatMap Key.chars := by
    induction keys with
    | nil => rfl
    | cons key keys ih => simp [ih]
  rw [lexemes, spelling_cons, hkeys]
  rfl

theorem plain : ∀ l ∈ p.lexemes, Plain l ∧ l.kind ≠ .string := by
  refine List.forall_mem_cons.mpr ⟨⟨p.root.plain, nofun⟩, fun l hl => ?_⟩
  obtain ⟨key, -, hl⟩ := List.mem_flatMap.mp hl
  exact key.plain l hl

end Path

/-! ## Ends of ranges -/

/-- An end of a range. -/
inductive Endpoint where
  | integer (n : Integer)
  | path (p : Path)

/-- No two dots stand side by side. -/
def DotsApart (s : List Char) : Prop := s.IsChain fun c d => c = '.' → d ≠ '.'

theorem dotsApart_append {s t : List Char} (hs : '.' ∉ s) (ht : DotsApart t) : DotsApart (s ++ t) := by
  induction s with
  | nil => exact ht
  | cons c s ih =>
    obtain ⟨hc, hs⟩ := List.ne_and_not_mem_of_not_mem_cons hs
    exact List.isChain_cons.mpr ⟨fun _ _ h => absurd h.symm hc, ih hs⟩

theorem DotsApart.not_infix {s : List Char} (h : DotsApart s) : ¬ ['.', '.'] <:+: s := by
  rintro ⟨front, back, rfl⟩
  have := (List.isChain_append.mp (List.isChain_append.mp h).1).2.1
  exact (List.isChain_cons_cons.mp this).1 rfl rfl

theorem Path.dotsApart (p : Path) : DotsApart p.chars := by
  have hname (n : Name) : '.' ∉ n.chars := n.not_mem_of_isWordChar (by decide)
  refine dotsApart_append (hname p.root) ?_
  induction p.keys with
  | nil => exact .nil
  | cons key keys ih =>
    rw [List.flatMap_cons]
    cases key with
    | name n =>
      refine List.isChain_cons.mpr ⟨?_, dotsApart_append (hname n) ih⟩
      rintro _ ⟨⟩ - h
      exact hname n (h ▸ List.mem_cons_self)
    | index n =>
      refine dotsApart_append ?_ ih
      have := n.not_mem_chars (c := '.') (by decide) (by decide)
      simpa [Key.chars] using this

namespace Endpoint

variable (e : Endpoint)

def chars : Endpoint → List Char
  | integer n => n.chars
  | path p => p.chars

def toExpr : Endpoint → Expr
  | integer n => .value (.int n.value)
  | path p => p.toExpr

def lexemes : Endpoint → List Lexeme
  | integer n => [n.lexeme]
  | path p => p.lexemes

/-- What a range between two ends stands for: its numbers when both are known. -/
def rangeTo : Endpoint → Endpoint → Expr
  | integer m, integer n => .value (.range (.inclusive m.value n.value))
  | first, last => .range first.toExpr last.toExpr

theorem read_chars : Expr.read e.chars = .ok e.toExpr := by
  cases e with
  | integer n => exact Expr.read_numeral n.toNumeral n.short
  | path p => exact p.read_chars

theorem forms : Forms .expression e.lexemes := by
  cases e with
  | integer n => exact .literal (.inr rfl)
  | path p => exact p.forms

theorem spelling_lexemes : spelling e.lexemes = e.chars := by
  cases e with
  | integer n => exact List.append_nil _
  | path p => exact p.spelling_lexemes

theorem plain : ∀ l ∈ e.lexemes, Plain l ∧ l.kind ≠ .string := by
  cases e with
  | integer n => exact List.forall_mem_singleton.mpr ⟨n.plain, nofun⟩
  | path p => exact p.plain

theorem dotsApart : DotsApart e.chars := by
  cases e with
  | integer n =>
    have := dotsApart_append (n.not_mem_chars (c := '.') (by decide) (by decide)) .nil
    rwa [List.append_nil] at this
  | path p => exact p.dotsApart

theorem isBlank_of_mem : ∀ c ∈ e.chars, isBlank c = false := by
  rw [← spelling_lexemes]
  intro c hc
  obtain ⟨l, hl, hc⟩ := List.mem_flatMap.mp hc
  obtain ⟨hplain, hstring⟩ := e.plain l hl
  exact Fragment.isBlank_of_isPlain (Fragment.isPlain_of_isSolid
    ((hplain.starts_blank []).solid (e.forms.kinds l hl) hstring c hc))

theorem between_toExpr (first last : Endpoint) :
    Expr.between first.toExpr last.toExpr = .ok (first.rangeTo last) := by
  cases first <;> cases last <;> rfl

/-- The text of a range is read from those of its ends. -/
theorem read_rangeText (first last : Endpoint) :
    Expr.read (Expr.rangeText first.chars last.chars) = .ok (first.rangeTo last) := by
  have hproper (e : Endpoint) : Proper e.lexemes := fun l hl =>
    .inr ⟨_, ((e.plain l hl).1).starts_blank []⟩
  obtain ⟨hfirst, -, -⟩ := first.forms.spelling_ends (hproper first)
  obtain ⟨hlast, hhead, hend⟩ := last.forms.spelling_ends (hproper last)
  rw [spelling_lexemes] at hfirst hlast hhead hend
  have hends := (Expr.rangeEnds?_rangeText_iff hfirst hlast hhead hend).mpr
    ⟨List.forall_mem_append.mpr ⟨first.isBlank_of_mem, last.isBlank_of_mem⟩, last.dotsApart.not_infix⟩
  rw [Expr.read_range hends, first.read_chars, last.read_chars]
  exact between_toExpr first last

end Endpoint

/-! ## Expressions -/

/-- A literal word. -/
inductive Word where
  | nil | yes | no | blank | empty
  deriving DecidableEq

namespace Word

def chars : Word → List Char
  | nil => ['n', 'i', 'l']
  | yes => ['t', 'r', 'u', 'e']
  | no => ['f', 'a', 'l', 's', 'e']
  | blank => ['b', 'l', 'a', 'n', 'k']
  | empty => ['e', 'm', 'p', 't', 'y']

def value : Word → Value
  | nil => .nil
  | yes => .bool true
  | no => .bool false
  | blank => .literal .blank
  | empty => .literal .empty

end Word

/-- An expression in its canonical form. -/
inductive Expression where
  | word (w : Word)
  | integer (n : Integer)
  | string (content : List Char) (closed : '\'' ∉ content)
  | path (p : Path)
  | range (first last : Endpoint)

namespace Expression

variable (e : Expression)

def chars : Expression → List Char
  | word w => w.chars
  | integer n => n.chars
  | string content _ => '\'' :: content ++ ['\'']
  | path p => p.chars
  | range first last => Expr.rangeText first.chars last.chars

def toExpr : Expression → Expr
  | word w => .value w.value
  | integer n => .value (.int n.value)
  | string content _ => .value (.str (String.ofList content))
  | path p => p.toExpr
  | range first last => first.rangeTo last

def lexemes : Expression → List Lexeme
  | word w => [⟨.identifier, w.chars⟩]
  | integer n => [n.lexeme]
  | string content _ => [⟨.string, '\'' :: content ++ ['\'']⟩]
  | path p => p.lexemes
  | range first last => openRound :: first.lexemes ++ dots :: last.lexemes ++ [closeRound]

/-- **Canonical texts are read as what they stand for.** -/
theorem read_chars : Expr.read e.chars = .ok e.toExpr := by
  cases e with
  | word w => cases w <;> rfl
  | integer n => exact Expr.read_numeral n.toNumeral n.short
  | string content closed => exact Expr.read_quoted (.inl rfl) content
  | path p => exact p.read_chars
  | range first last => exact Endpoint.read_rangeText first last

theorem forms : Forms .expression e.lexemes := by
  cases e with
  | word w => exact .named rfl .done
  | integer n => exact .literal (.inr rfl)
  | string content closed => exact .literal (.inl rfl)
  | path p => exact p.forms
  | range first last => exact .range first.forms last.forms

theorem spelling_lexemes : spelling e.lexemes = e.chars := by
  cases e with
  | word w | integer n | string content closed => exact List.append_nil _
  | path p => exact p.spelling_lexemes
  | range first last =>
    simp [lexemes, chars, Expr.rangeText, first.spelling_lexemes, last.spelling_lexemes, openRound, dots,
      closeRound]

theorem plain : ∀ l ∈ e.lexemes, Plain l := by
  cases e with
  | word w =>
    refine List.forall_mem_singleton.mpr ?_
    cases w <;> exact .word (by decide) (by decide) (by decide)
  | integer n => exact List.forall_mem_singleton.mpr n.plain
  | string content closed => exact List.forall_mem_singleton.mpr (.string closed)
  | path p => exact fun l hl => (p.plain l hl).1
  | range first last =>
    intro l hl
    simp only [lexemes, List.mem_append, List.mem_cons, List.not_mem_nil, or_false] at hl
    rcases hl with ((rfl | hl) | (rfl | hl)) | rfl
    · exact .single rfl (by decide)
    · exact (first.plain l hl).1
    · exact .dots
    · exact (last.plain l hl).1
    · exact .single rfl (by decide)

theorem proper : Proper e.lexemes := fun l hl => .inr ⟨_, (e.plain l hl).starts_blank []⟩

theorem lexemes_ne_nil : e.lexemes ≠ [] := by
  obtain ⟨l, rest, hls, -⟩ := e.forms.head
  rw [hls]
  nofun

theorem head_spread (gap : Bool) : ∃ l rest, spread gap e.lexemes = ⟨gap, l⟩ :: rest := by
  obtain ⟨l, ls, hls, -⟩ := e.forms.head
  exact ⟨l, _, by rw [hls]; rfl⟩

theorem write_spread (gap : Bool) :
    write (spread gap e.lexemes) = (if gap then [' '] else []) ++ e.chars := by
  rw [Lexeme.write_spread gap e.lexemes_ne_nil, e.spelling_lexemes]

theorem plain_spread (gap : Bool) : ∀ x ∈ spread gap e.lexemes, Plain x.lexeme := fun _ hx =>
  e.plain _ (map_lexeme_spread gap e.lexemes ▸ List.mem_map_of_mem hx)

/-- The text is one operand of the tolerant grammar. -/
theorem operand : Fragment.Operand e.chars := by
  rw [← spelling_lexemes]
  exact operand_of_forms e.forms e.proper

/-- The strict grammar takes the lexemes, if no step of a path follows them. -/
theorem expression_lexemes {rest : Rest} (hrest : NoStep rest) :
    Grammar.expression (e.lexemes ++ rest) = .ok (e.chars, rest) := by
  rw [expression_of_forms e.forms hrest, spelling_lexemes]

end Expression

end Stencil.Canonical
