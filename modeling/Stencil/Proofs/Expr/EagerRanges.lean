import Stencil.Proofs.Expr.Canonical
import Stencil.Proofs.Expr.Numerals
import Stencil.Proofs.Number.DecimalText
import Stencil.Proofs.Render.Run
import Stencil.Proofs.Value.Failures

/-!
# Ranges made at once and ranges made in a render

A range between two constants is made when its text is read, and its ends are converted leniently. A range
between variables is made in a render, and there an end that is neither nil nor a whole number nor a text is
converted strictly.

* `toRangeEnd_of_denotesEnd`, `toRangeEnd_refused`: the two conversions agree on nil, whole numbers and texts,
  and the strict one refuses booleans and decimal numbers.
* `read_constants`, `evaluate_variables`: what the two ranges are.
* `eager_range_eq_lazy_iff`: when they are the same.
-/

namespace Stencil

open Text

namespace Value

variable {v : Value}

/-- Nil, booleans, numbers and texts. -/
def isScalar : Value → Bool
  | .nil | .bool _ | .int _ | .float _ | .str _ => true
  | _ => false

/-- What a literal stands for. -/
def isLiteral : Value → Bool
  | .nil | .bool _ | .int _ | .float _ | .str _ | .range _ | .literal _ => true
  | _ => false

theorem isLiteral_of_isScalar (hv : v.isScalar = true) : v.isLiteral = true := by
  cases v with
  | nil | bool | int | float | str => rfl
  | _ => cases hv

/-- Nil, whole numbers and texts stand for an end of a range. -/
def denotesEnd : Value → Bool
  | .nil | .int _ | .str _ => true
  | _ => false

theorem toRangeEnd_of_denotesEnd (hv : v.denotesEnd = true) (loops : Loops) :
    v.toRangeEnd loops = v.toInt #[] := by
  cases v with
  | nil | int | str => rfl
  | _ => cases hv

/-- All other scalars are refused: none of them is written as a whole number. -/
theorem toRangeEnd_refused (hscalar : v.isScalar = true) (hv : v.denotesEnd = false)
    (hrange : ∀ x, v = .float x → x.InRange) (loops : Loops) :
    v.toRangeEnd loops = .error (.template (.badArgument "invalid integer")) := by
  cases v with
  | nil | int | str => cases hv
  | bool b => cases b <;> rfl
  | float x =>
    change (Number.readInt x.text.toList).mapError _ = _
    cases hread : Number.readInt x.text.toList with
    | error e => rfl
    | ok n => exact absurd hread (Number.readInt_text_ne_ok (hrange x rfl) n)
  | _ => cases hscalar

end Value

namespace Expr

/-! ## Ends that are constants -/

/-- A text that stands for nil, a boolean, a number, or a quoted text. -/
structure Constant where
  chars : List Char
  value : Value
  reads : read chars = .ok (.value value)
  scalar : value.isScalar = true

/-- The range between two ends, which are worked out one after the other. -/
def rangeOf (first last : Outcome Int) : Outcome Value := do
  let start ← first
  let stop ← last
  return .range (.inclusive start stop)

theorem between_scalars {v w : Value} (hv : v.isScalar = true) (hw : w.isScalar = true) :
    between (.value v) (.value w) = (rangeOf (v.toInt #[]) (w.toInt #[])).map .value := by
  have hdeferred {v : Value} (hv : v.isScalar = true) : (Expr.value v).isDeferred = false := by
    cases v with
    | literal => cases hv
    | _ => rfl
  rw [between, hdeferred hv, hdeferred hw, if_neg (by decide)]
  cases v.toInt #[] with
  | error e => rfl
  | ok start => cases w.toInt #[] <;> rfl

/-- **A range between constants is made at once.** -/
theorem read_constants {l r : Constant}
    (hcut : rangeEnds? (rangeText l.chars r.chars) = some (l.chars, r.chars)) :
    read (rangeText l.chars r.chars) =
      (rangeOf (l.value.toInt #[]) (r.value.toInt #[])).map .value := by
  rw [read_range hcut, l.reads, r.reads]
  exact between_scalars l.scalar r.scalar

/-- A text that stands for a value is a word, a quoted text, a number, or a range between such texts. -/
theorem read_eq_value {s : List Char} {v : Value} (hread : read s = .ok (.value v)) :
    (∃ word, literalWord? word = some v) ∨ (∃ text, v = .str text) ∨ (∃ n, v = .int n) ∨
      (∃ start stop, v = .range (.inclusive start stop)) ∨ ∃ x, v = .float x ∧ x.InRange := by
  rw [read_eq] at hread
  unfold readWith at hread
  dsimp only at hread
  -- in the order in which it is decided what the text is
  split at hread
  · next w hw =>
    cases hread
    exact .inl ⟨_, hw⟩
  split at hread
  · cases hread
    exact .inr (.inl ⟨_, rfl⟩)
  split at hread
  · obtain ⟨n, -, heq⟩ := map_eq_ok_iff.mp hread
    cases heq
    exact .inr (.inr (.inl ⟨n, rfl⟩))
  split at hread
  · obtain ⟨first, -, hread⟩ := bind_eq_ok_iff.mp hread
    obtain ⟨last, -, hread⟩ := bind_eq_ok_iff.mp hread
    rcases isRange_of_between hread with heq | ⟨_, _, start, stop, -, -, -, -, heq⟩
    · cases heq
    · cases heq
      exact .inr (.inr (.inr (.inl ⟨start, stop, rfl⟩)))
  split at hread
  · next y hy =>
    cases hread
    obtain ⟨number, -, hnumber⟩ := Option.bind_eq_some_iff.mp hy
    exact .inr (.inr (.inr (.inr ⟨y, rfl, Number.inRange_of_readBinary hnumber⟩)))
  split at hread
  · cases hread
  · obtain ⟨root, -, hread⟩ := bind_eq_ok_iff.mp hread
    obtain ⟨path, -, hread⟩ := bind_eq_ok_iff.mp hread
    cases hread

theorem isLiteral_of_read {s : List Char} {v : Value} (hread : read s = .ok (.value v)) :
    v.isLiteral = true := by
  have hword {word : List Char} {v : Value} (hw : literalWord? word = some v) : v.isLiteral = true := by
    unfold literalWord? at hw
    split at hw
    · cases hw
      rfl
    · split at hw <;> cases hw <;> rfl
  rcases read_eq_value hread with ⟨_, hw⟩ | ⟨_, rfl⟩ | ⟨_, rfl⟩ | ⟨_, _, rfl⟩ | ⟨_, rfl, -⟩
  · exact hword hw
  all_goals rfl

/-- A number that is read has an exponent in the range. -/
theorem inRange_of_read {s : List Char} {x : Binary64} (hread : read s = .ok (.value (.float x))) :
    x.InRange := by
  have hword {s : List Char} : literalWord? s ≠ some (.float x) := by
    unfold literalWord?
    repeat' split
    all_goals nofun
  rcases read_eq_value hread with ⟨_, hw⟩ | ⟨_, heq⟩ | ⟨_, heq⟩ | ⟨_, _, heq⟩ | ⟨_, heq, hx⟩
  · exact absurd hw hword
  · cases heq
  · cases heq
  · cases heq
  · cases heq
    exact hx

/-- A constant that stands for no end of a range is refused as one. -/
theorem Constant.toRangeEnd_refused (c : Constant) (hc : c.value.denotesEnd = false) (loops : Loops) :
    c.value.toRangeEnd loops = .error (.template (.badArgument "invalid integer")) :=
  Value.toRangeEnd_refused c.scalar hc (fun _ hx => inRange_of_read (hx ▸ c.reads)) loops

theorem Constant.denotesEnd_of_toRangeEnd {c : Constant} {loops : Loops} {n : Int}
    (h : c.value.toRangeEnd loops = .ok n) : c.value.denotesEnd = true := by
  by_contra hc
  rw [c.toRangeEnd_refused (Bool.eq_false_of_not_eq_true hc)] at h
  cases h

/-! ## Ends that are variables -/

open Render

variable {σ : Settings} {s : RenderState}

/-- The text of a range between two names is read as the range between the variables. -/
theorem read_names (a b : Canonical.Name) (ha : a.chars ∉ literalWords) (hb : b.chars ∉ literalWords) :
    read (rangeText a.chars b.chars) =
      .ok (.range (.lookup (.value (.str a.text)) []) (.lookup (.value (.str b.text)) [])) := by
  have hname (n : Canonical.Name) (hn : n.chars ∉ literalWords) :
      (Canonical.Endpoint.path ⟨n, [], by simpa using hn⟩).chars = n.chars := List.append_nil _
  rw [← hname a ha, ← hname b hb]
  exact Canonical.Endpoint.read_rangeText _ _

/-- A variable that is bound to what a literal stands for has it as its value, and looking it up changes
nothing. -/
theorem evaluate_variable {name : String} {v : Value}
    (hbound : (s.scopes ++ σ.environments).findSome? (·.get? name) = some v) (hv : v.isLiteral = true) :
    (Expr.lookup (.value (.str name)) []).evaluate.runFrom σ s = (.ok v, s) := by
  have hlayers : layers.runFrom σ s = (.ok (s.scopes ++ σ.environments), s) := rfl
  -- that is no function that would be called, and no host object that would be bound
  have hsettle {find : String → Render Value} : (settle find v).runFrom σ s = (.ok v, s) := by
    cases v with
    | nil | bool | int | float | str | range | literal => rfl
    | _ => cases hv
  simp only [evaluate, follow, findNamed, find, findWithin, runFrom_bind, runFrom_pure, hlayers, hbound,
    hsettle]

/-- **A range between variables is made in a render.** -/
theorem evaluate_variables {a b : String} {v w : Value}
    (ha : (s.scopes ++ σ.environments).findSome? (·.get? a) = some v) (hv : v.isScalar = true)
    (hb : (s.scopes ++ σ.environments).findSome? (·.get? b) = some w) (hw : w.isScalar = true) :
    (Expr.range (.lookup (.value (.str a)) []) (.lookup (.value (.str b)) [])).evaluate.runFrom σ s =
      (rangeOf (v.toRangeEnd s.loops) (w.toRangeEnd s.loops), s) := by
  have hloops : loops.runFrom σ s = (.ok s.loops, s) := rfl
  have hv := Value.isLiteral_of_isScalar hv
  have hw := Value.isLiteral_of_isScalar hw
  rw [evaluate]
  cases hstart : v.toRangeEnd s.loops with
  | error e =>
    simp only [runFrom_bind, evaluate_variable ha hv, hloops, runFrom_ofOutcome, hstart]
    rfl
  | ok start =>
    simp only [runFrom_bind, evaluate_variable ha hv, evaluate_variable hb hw, hloops, runFrom_ofOutcome,
      hstart]
    cases w.toRangeEnd s.loops <;> rfl

/-! ## When both are the same -/

theorem rangeOf_eq_ok_iff {first last : Outcome Int} {v : Value} :
    rangeOf first last = .ok v ↔
      ∃ start stop, first = .ok start ∧ last = .ok stop ∧ v = .range (.inclusive start stop) := by
  constructor
  · intro h
    obtain ⟨start, hstart, h⟩ := bind_eq_ok_iff.mp h
    obtain ⟨stop, hstop, h⟩ := bind_eq_ok_iff.mp h
    cases h
    exact ⟨start, stop, hstart, hstop, rfl⟩
  · rintro ⟨start, stop, rfl, rfl, rfl⟩
    rfl

variable {l r : Constant}

/-- Ends that are converted leniently are never refused. -/
theorem rangeOf_toInt_ne_refusal (v w : Value) (error : TemplateError) :
    rangeOf (v.toInt #[]) (w.toInt #[]) ≠ .error (.template error) := by
  have hhost : FailsOnly Failure.IsHost (rangeOf (v.toInt #[]) (w.toInt #[])) :=
    (Value.failsOnly_toInt _ v).bind fun _ _ =>
      (Value.failsOnly_toInt _ w).bind fun _ _ => failsOnly_ok _
  intro h
  obtain ⟨host, heq⟩ := hhost _ h
  cases heq

theorem rangeOf_toRangeEnd_refused (loops : Loops)
    (hnot : ¬ (l.value.denotesEnd = true ∧ r.value.denotesEnd = true))
    (hconverts : l.value.denotesEnd = true → ∃ n, l.value.toInt #[] = .ok n) :
    rangeOf (l.value.toRangeEnd loops) (r.value.toRangeEnd loops) =
      .error (.template (.badArgument "invalid integer")) := by
  cases hl : l.value.denotesEnd with
  | false =>
    rw [l.toRangeEnd_refused hl]
    rfl
  | true =>
    have hr : r.value.denotesEnd = false := Bool.eq_false_of_not_eq_true fun hr => hnot ⟨hl, hr⟩
    obtain ⟨n, hn⟩ := hconverts hl
    rw [Value.toRangeEnd_of_denotesEnd hl, hn, r.toRangeEnd_refused hr]
    rfl

theorem rangeOf_toInt_eq_iff (loops : Loops) :
    rangeOf (l.value.toInt #[]) (r.value.toInt #[]) =
        rangeOf (l.value.toRangeEnd loops) (r.value.toRangeEnd loops) ↔
      l.value.denotesEnd = true ∧
        (r.value.denotesEnd = true ∨ ∃ e, l.value.toInt #[] = .error e) := by
  constructor
  · -- what is never refused would be the same as what is
    intro heq
    by_contra hnot
    refine rangeOf_toInt_ne_refusal _ _ _ (heq.trans (rangeOf_toRangeEnd_refused loops
      (fun hboth => hnot ⟨hboth.1, .inl hboth.2⟩) fun hl => ?_))
    cases hfirst : l.value.toInt #[] with
    | ok n => exact ⟨n, rfl⟩
    | error e => exact absurd ⟨hl, .inr ⟨e, hfirst⟩⟩ hnot
  · rintro ⟨hl, hr | ⟨e, he⟩⟩
    · rw [Value.toRangeEnd_of_denotesEnd hl, Value.toRangeEnd_of_denotesEnd hr]
    · rw [Value.toRangeEnd_of_denotesEnd hl, he]
      rfl

/-- The texts among the ends start with a whole number or with none: their characters with a digit value are
decimal digits, and not too many of them stand next to each other. -/
def HasPlainDigits (v : Value) : Prop :=
  ∀ s, v = .str s → (∀ c ∈ s.toList, isDigitLike c = true → isDecimal c = true) ∧
    RunsBelow isDecimal (Number.maxDigits + 1) s.toList

theorem exists_toInt_of_denotesEnd {v : Value} (hv : v.denotesEnd = true) (hdigits : HasPlainDigits v) :
    ∃ n, v.toInt #[] = .ok n := by
  cases v with
  | nil => exact ⟨0, rfl⟩
  | int n => exact ⟨n, rfl⟩
  | str s =>
    obtain ⟨hdecimal, hshort⟩ := hdigits s rfl
    obtain ⟨n, hn, -⟩ := exists_leadingInt (Nat.le_refl _) hdecimal hshort
    exact ⟨n, hn⟩
  | _ => cases hv

/-- **Ranges made at once and ranges made in a render.** Let the text of a range between two constants be cut
between them (`rangeEnds?_rangeText_iff`), and let two variables be bound to their values. The one range is
made when it is read (`eager`), and the other one in a render (`lazy`), which is left as it was. They are the
same just if both values stand for ends, or the first one does and has no whole number. What is made in a
render is a range between values that stand for ends, and the same as what is made at once; there is one if
their texts have plain digits. A value that stands for no end is refused in a render, unless the first end
fails before. -/
theorem eager_range_eq_lazy_iff (l r : Constant)
    (hcut : rangeEnds? (rangeText l.chars r.chars) = some (l.chars, r.chars))
    (a b : Canonical.Name) (ha : a.chars ∉ literalWords) (hb : b.chars ∉ literalWords)
    (σ : Settings) (s : RenderState)
    (hfirst : (s.scopes ++ σ.environments).findSome? (·.get? a.text) = some l.value)
    (hlast : (s.scopes ++ σ.environments).findSome? (·.get? b.text) = some r.value) :
    ∃ eager lazy : Outcome Value,
      read (rangeText l.chars r.chars) = eager.map .value ∧
      (∃ e, read (rangeText a.chars b.chars) = .ok e ∧ e.evaluate.runFrom σ s = (lazy, s)) ∧
      (eager = lazy ↔
        l.value.denotesEnd ∧ (r.value.denotesEnd ∨ ∃ e, l.value.toInt #[] = .error e)) ∧
      (∀ v, lazy = .ok v → l.value.denotesEnd ∧ r.value.denotesEnd ∧ eager = .ok v ∧
        ∃ start stop, l.value.toInt #[] = .ok start ∧ r.value.toInt #[] = .ok stop ∧
          v = .range (.inclusive start stop)) ∧
      (l.value.denotesEnd → r.value.denotesEnd → HasPlainDigits l.value → HasPlainDigits r.value →
        ∃ span, eager = .ok (.range span) ∧ lazy = .ok (.range span)) ∧
      (¬ (l.value.denotesEnd ∧ r.value.denotesEnd) →
        (l.value.denotesEnd → ∃ n, l.value.toInt #[] = .ok n) →
          lazy = .error (.template (.badArgument "invalid integer"))) := by
  refine ⟨_, _, read_constants hcut,
    ⟨_, read_names a b ha hb, evaluate_variables hfirst l.scalar hlast r.scalar⟩,
    rangeOf_toInt_eq_iff s.loops, fun v hv => ?_, fun hl hr hdigits hdigits' => ?_,
    rangeOf_toRangeEnd_refused s.loops⟩
  · obtain ⟨start, stop, hstart, hstop, rfl⟩ := rangeOf_eq_ok_iff.mp hv
    have hl := Constant.denotesEnd_of_toRangeEnd hstart
    have hr := Constant.denotesEnd_of_toRangeEnd hstop
    rw [Value.toRangeEnd_of_denotesEnd hl] at hstart
    rw [Value.toRangeEnd_of_denotesEnd hr] at hstop
    exact ⟨hl, hr, rangeOf_eq_ok_iff.mpr ⟨start, stop, hstart, hstop, rfl⟩,
      start, stop, hstart, hstop, rfl⟩
  · obtain ⟨start, hstart⟩ := exists_toInt_of_denotesEnd hl hdigits
    obtain ⟨stop, hstop⟩ := exists_toInt_of_denotesEnd hr hdigits'
    have heager := rangeOf_eq_ok_iff.mpr ⟨start, stop, hstart, hstop, rfl⟩
    exact ⟨_, heager, ((rangeOf_toInt_eq_iff s.loops).mpr ⟨hl, .inl hr⟩).symm.trans heager⟩

/-- The name of a variable that is a single letter. -/
def letter (c : Char) (hc : isIdentifierStart c = true) (hword : [c] ∉ Canonical.reservedWords) :
    Canonical.Name :=
  ⟨c, [], hc, nofun, hword⟩

/-- A text in quotes, which starts with a whole number. -/
def quotedTwo : Constant := ⟨"'2x'".toList, .str "2x", rfl, rfl⟩

/-- A whole number. -/
def seven : Constant := ⟨['7'], .int 7, rfl, rfl⟩

/-- The range from a text to a whole number is the same in a render. -/
theorem eager_range_eq_lazy_iff_quotedTwo :
    read "('2x'..7)".toList = .ok (.value (.range (.inclusive 2 7))) ∧
      ∃ e, read "(a..b)".toList = .ok e ∧
        e.evaluate.runFrom { environments := [[("a", .str "2x"), ("b", .int 7)]] } {} =
          (.ok (.range (.inclusive 2 7)), {}) := by
  have hread : read "('2x'..7)".toList = .ok (.value (.range (.inclusive 2 7))) := rfl
  obtain ⟨eager, lazy, heager, ⟨e, he, hlazy⟩, hsame, -⟩ :=
    eager_range_eq_lazy_iff quotedTwo seven rfl (letter 'a' (by decide) (by decide))
      (letter 'b' (by decide) (by decide)) (by decide) (by decide)
      { environments := [[("a", .str "2x"), ("b", .int 7)]] } {} rfl rfl
  refine ⟨hread, e, he, ?_⟩
  rw [hlazy, ← hsame.mpr ⟨rfl, .inl rfl⟩]
  obtain ⟨v, hv, heq⟩ := map_eq_ok_iff.mp (heager.symm.trans hread)
  cases heq
  rw [hv]

/-- A boolean is zero at the end of a range that is made at once, and refused in a render. -/
theorem eager_range_of_boolean :
    read "true".toList = .ok (.value (.bool true)) ∧ read "3".toList = .ok (.value (.int 3)) ∧
      read "(true..3)".toList = .ok (.value (.range (.inclusive 0 3))) ∧
      ∃ e, read "(a..b)".toList = .ok e ∧
        e.evaluate.runFrom { environments := [[("a", .bool true), ("b", .int 3)]] } {} =
          (.error (.template (.badArgument "invalid integer")), {}) :=
  ⟨rfl, rfl, rfl, _, rfl, rfl⟩

end Expr

end Stencil
