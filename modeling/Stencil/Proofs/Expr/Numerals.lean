import Stencil.Proofs.Markup.Within
import Stencil.Proofs.Text.Runs
import Stencil.Proofs.Value.Magnitude

/-!
# How numerals are read

Decimal digits behind an optional sign are a whole number, if they are not too many
(`readInt_digits`), and a decimal number if at most 308 of them stand in front of the point
(`exists_readBinary_of_number`).

The numeral a text starts with is its longest prefix that is an optional sign followed by decimal digits
(`LongestNumeral`). What is taken from the front of a text to be read is that numeral and the characters with
a digit value behind it (`exists_longestNumeral`), so that it is read just if there are none. A text whose
characters with a digit value are all decimal digits starts with a whole number or with none
(`exists_leadingInt`).
-/

namespace Stencil

open Text

/-! ## Digits -/

namespace Number

/-- The values of digits. -/
def digitValues (digits : List Char) : List Nat := digits.map fun c => (digitValue? c).getD 0

@[simp] theorem length_digitValues (digits : List Char) : (digitValues digits).length = digits.length :=
  List.length_map _

@[simp] theorem isEmpty_digitValues (digits : List Char) : (digitValues digits).isEmpty = digits.isEmpty :=
  List.isEmpty_map

theorem digitValues_lt {digits : List Char} (hdigits : ∀ c ∈ digits, isDecimal c = true) :
    ∀ d ∈ digitValues digits, d < 10 := by
  intro d hd
  obtain ⟨c, hc, rfl⟩ := List.mem_map.mp hd
  obtain ⟨n, hn⟩ := Option.isSome_iff_exists.mp (hdigits c hc)
  rw [hn]
  exact digitValue?_lt hn

/-- Decimal digits are taken off up to what follows them, if that is no underscore. -/
theorem takeDigits_run {digits rest : List Char} (hdigits : ∀ c ∈ digits, isDecimal c = true)
    (hrest : Stops isDecimal rest) (hunderscore : '_' ∉ rest.head?) (afterDigit : Bool) :
    takeDigits afterDigit (digits ++ rest) = some (digitValues digits, rest) := by
  induction digits generalizing afterDigit with
  | nil =>
    cases rest with
    | nil => rfl
    | cons c rest =>
      have hnone : digitValue? c = none := by simpa [isDecimal] using hrest
      have hc : ¬ (c == '_') = true := by
        rw [beq_iff_eq]
        rintro rfl
        exact hunderscore rfl
      rw [List.nil_append]
      unfold takeDigits
      rw [hnone]
      dsimp only
      rw [if_neg hc]
      rfl
  | cons c digits ih =>
    obtain ⟨hc, hdigits⟩ := List.forall_mem_cons.mp hdigits
    obtain ⟨d, hd⟩ := Option.isSome_iff_exists.mp hc
    rw [List.cons_append]
    unfold takeDigits
    rw [hd]
    dsimp only
    rw [ih hdigits true]
    simp [digitValues, hd]

theorem takeDigits_digits {digits : List Char} (hdigits : ∀ c ∈ digits, isDecimal c = true)
    (afterDigit : Bool) : takeDigits afterDigit digits = some (digitValues digits, []) := by
  have htake := takeDigits_run hdigits stops_nil (by simp) afterDigit
  rwa [List.append_nil] at htake

end Number

open Number (digitValues)

/-! ## Digits behind a sign -/

/-- The signs a numeral may have. -/
def numeralSigns : List (List Char) := [[], ['-'], ['+']]

variable {sign digits : List Char}

theorem numeralSigns_chars (hsign : sign ∈ numeralSigns) :
    ∀ c ∈ sign, isDigitLike c = false ∧ isBlank c = false := by
  have hall : ∀ sign ∈ numeralSigns, ∀ c ∈ sign, isDigitLike c = false ∧ isBlank c = false := by decide
  exact hall sign hsign

theorem not_mem_numeralSigns {c : Char} (hlike : isDigitLike c = true) (hc : c ∈ sign) :
    sign ∉ numeralSigns := by
  intro hsign
  rw [(numeralSigns_chars hsign c hc).1] at hlike
  cases hlike

/-- A sign and what stands behind it have no blanks at their ends, if that has none. -/
theorem trim_signed (hsign : sign ∈ numeralSigns) {body : List Char} (hne : body ≠ [])
    (hfirst : Stops isBlank body) (hlast : ∀ c ∈ body.getLast?, isBlank c = false) :
    trim (sign ++ body) = sign ++ body := by
  refine trim_of_ends (Stops.append (fun c hc => ?_) fun _ => hfirst) fun c hc => ?_
  · exact (numeralSigns_chars hsign c (List.mem_of_head? hc)).2
  · rw [List.getLast?_append_of_ne_nil _ hne] at hc
    exact hlast c hc

/-- The sign is split off what does not start with another one. -/
theorem splitSign_append (hsign : sign ∈ numeralSigns) {body : List Char}
    (hfirst : ∀ c ∈ body.head?, [c] ∉ numeralSigns) :
    Number.splitSign (sign ++ body) = (sign == ['-'], body) := by
  have hplain : Number.splitSign body = (false, body) := by
    unfold Number.splitSign
    split
    · exact absurd (by decide) (hfirst '-' rfl)
    · exact absurd (by decide) (hfirst '+' rfl)
    · rfl
  simp only [numeralSigns, List.mem_cons, List.not_mem_nil, or_false] at hsign
  rcases hsign with rfl | rfl | rfl
  · exact hplain
  · rfl
  · rfl

/-- The whole number that decimal digits behind a sign denote. Without a digit it is zero. -/
def denoted (sign digits : List Char) : Int :=
  let magnitude : Nat := Nat.ofDigits 10 (digitValues digits).reverse
  if sign = ['-'] then -(magnitude : Int) else magnitude

@[simp] theorem denoted_nil : denoted sign [] = 0 := by
  unfold denoted
  split <;> rfl

theorem signed_ofDigits : Binary64.signed (sign == ['-']) (Number.ofDigits (digitValues digits)) =
    denoted sign digits := by
  simp only [Binary64.signed, Number.ofDigits_eq, denoted, beq_iff_eq]

theorem natAbs_denoted_lt (hdigits : ∀ c ∈ digits, isDecimal c = true) :
    (denoted sign digits).natAbs < 10 ^ digits.length := by
  rw [← signed_ofDigits, Binary64.natAbs_signed, ← Number.length_digitValues]
  exact Number.ofDigits_lt (Number.digitValues_lt hdigits)

/-- **Digits behind a sign are read** as what they denote, unless they are too many, or other characters with
a digit value follow. -/
theorem readInt_signed (hsign : sign ∈ numeralSigns) {more : List Char}
    (hdigits : ∀ c ∈ digits, isDecimal c = true) (hmore : ∀ c ∈ more, isDigitLike c = true)
    (hstops : Stops isDecimal more) (hne : digits ++ more ≠ []) :
    Number.readInt (sign ++ (digits ++ more)) =
      if Number.maxDigits < digits.length then .error (.tooLong digits.length)
      else if more = [] then .ok (denoted sign digits) else .error .invalid := by
  have hlike : ∀ c ∈ digits ++ more, isDigitLike c = true :=
    List.forall_mem_append.mpr ⟨fun c hc => isDigitLike_of_isDecimal (hdigits c hc), hmore⟩
  have htrim : trim (sign ++ (digits ++ more)) = sign ++ (digits ++ more) :=
    trim_signed hsign hne (fun c hc => isBlank_of_isDigitLike (hlike c (List.mem_of_head? hc)))
      fun c hc => isBlank_of_isDigitLike (hlike c (List.mem_of_getLast? hc))
  have hsplit : Number.splitSign (sign ++ (digits ++ more)) = (sign == ['-'], digits ++ more) :=
    splitSign_append hsign fun c hc =>
      not_mem_numeralSigns (hlike c (List.mem_of_head? hc)) (List.mem_singleton_self c)
  have hunderscore : '_' ∉ more.head? := fun h =>
    absurd (hmore '_' (List.mem_of_head? h)) (by decide)
  rw [Number.readInt, htrim, hsplit]
  dsimp only
  rw [Number.takeDigits_run hdigits hstops hunderscore]
  dsimp only
  rw [Number.length_digitValues, Number.isEmpty_digitValues, signed_ofDigits]
  refine ite_congr rfl (fun _ => rfl) fun _ => ?_
  cases more with
  | nil => rw [if_neg (by simpa using hne), if_pos rfl]
  | cons c more => rw [if_pos (by simp), if_neg (List.cons_ne_nil c more)]

/-- **Digits are a whole number**, unless they are too many. -/
theorem readInt_digits (hsign : sign ∈ numeralSigns) (hne : digits ≠ [])
    (hdigits : ∀ c ∈ digits, isDecimal c = true) (hshort : digits.length ≤ Number.maxDigits) :
    Number.readInt (sign ++ digits) = .ok (denoted sign digits) := by
  have hread := readInt_signed hsign hdigits (List.forall_mem_nil _) stops_nil (by simpa using hne)
  rwa [List.append_nil, if_neg (Nat.not_lt.mpr hshort), if_pos rfl] at hread

theorem exists_readInt_of_digits (hsign : sign ∈ numeralSigns) (hne : digits ≠ [])
    (hdigits : ∀ c ∈ digits, isDecimal c = true) (hshort : digits.length ≤ Number.maxDigits) :
    ∃ n, Number.readInt (sign ++ digits) = .ok n ∧ n.natAbs < 10 ^ digits.length :=
  ⟨_, readInt_digits hsign hne hdigits hshort, natAbs_denoted_lt hdigits⟩

/-- A text that is a whole number is digits behind a sign. -/
theorem digits_of_isWholeNumber {s : List Char} (hs : Expr.isWholeNumber s = true) :
    ∃ sign digits, s = sign ++ digits ∧ sign ∈ numeralSigns ∧ digits ≠ [] ∧
      ∀ c ∈ digits, isDecimal c = true := by
  unfold Expr.isWholeNumber at hs
  split at hs <;>
    rw [Bool.and_eq_true, Bool.not_eq_true', List.isEmpty_eq_false_iff, List.all_eq_true] at hs
  · next rest => exact ⟨['-'], rest, rfl, by decide, hs.1, hs.2⟩
  · exact ⟨[], s, rfl, by decide, hs.1, hs.2⟩

/-! ## Leading numerals -/

/-- The longest prefix of a text that is an optional sign followed by decimal digits, and what follows it. -/
structure LongestNumeral (s sign digits rest : List Char) : Prop where
  split : s = sign ++ (digits ++ rest)
  isSign : sign ∈ numeralSigns
  areDigits : ∀ c ∈ digits, isDecimal c = true
  longest : ∀ sign' ∈ numeralSigns, ∀ digits', (∀ c ∈ digits', isDecimal c = true) →
    sign' ++ digits' <+: s → (sign' ++ digits').length ≤ (sign ++ digits).length

/-- A numeral goes on up to what is no digit; and what follows nothing is no sign either. -/
theorem LongestNumeral.of_stops {rest : List Char} (hsign : sign ∈ numeralSigns)
    (hdigits : ∀ c ∈ digits, isDecimal c = true) (hstops : Stops isDecimal rest)
    (hunsigned : sign ++ digits = [] → ∀ c ∈ rest.head?, [c] ∉ numeralSigns) :
    LongestNumeral (sign ++ (digits ++ rest)) sign digits rest where
  split := rfl
  isSign := hsign
  areDigits := hdigits
  longest := by
    intro sign' hsign' digits' hdigits' hprefix
    by_contra hlonger
    have hfront : sign ++ digits <+: sign ++ (digits ++ rest) := ⟨rest, List.append_assoc sign digits rest⟩
    have hshorter : sign ++ digits <+: sign' ++ digits' :=
      List.prefix_of_prefix_length_le hfront hprefix (by omega)
    obtain ⟨beyond, hbeyond⟩ := hshorter
    have hrest : beyond <+: rest := by
      rw [← hbeyond, ← List.append_assoc] at hprefix
      exact (List.prefix_append_right_inj _).mp hprefix
    -- the first character beyond is a digit of the longer numeral, or its sign
    cases beyond with
    | nil =>
      rw [← hbeyond, List.append_nil] at hlonger
      exact hlonger le_rfl
    | cons c beyond =>
      obtain ⟨after, rfl⟩ := hrest
      have hc : isDecimal c = false := stops_cons.mp hstops
      have hnone : c ∉ digits' := fun hmem => absurd ((hdigits' c hmem).symm.trans hc) (by decide)
      rcases List.append_eq_append_iff.mp hbeyond with ⟨tail, hsigned, htail⟩ | ⟨tail, -, htail⟩
      · cases tail with
        | nil =>
          rw [List.nil_append] at htail
          exact hnone (htail ▸ List.mem_cons_self)
        | cons d tail =>
          obtain ⟨rfl, -⟩ := List.cons.inj htail
          have hshort : ∀ sign ∈ numeralSigns, sign.length ≤ 1 := by decide
          have hlength := hshort sign' hsign'
          rw [hsigned, List.length_append, List.length_cons] at hlength
          have hnothing : sign ++ digits = [] := List.length_eq_zero_iff.mp (by omega)
          have htail : tail = [] := List.length_eq_zero_iff.mp (by omega)
          rw [hsigned, hnothing, htail] at hsign'
          exact hunsigned hnothing c rfl hsign'
      · exact hnone (htail ▸ List.mem_append_right tail List.mem_cons_self)

/-- What is taken for the numeral at the front of a text is a sign and the characters with a digit value
behind it. Without a sign, no sign follows. -/
theorem leadingNumeral_eq (s : List Char) :
    ∃ sign body, s = sign ++ body ∧ sign ∈ numeralSigns ∧
      (sign = [] → ∀ c ∈ body.head?, [c] ∉ numeralSigns) ∧
      Value.leadingNumeral s = sign ++ body.takeWhile isDigitLike := by
  cases s with
  | nil => exact ⟨[], [], rfl, by decide, fun _ => nofun, rfl⟩
  | cons c rest =>
    unfold Value.leadingNumeral
    dsimp only
    split
    · next hc =>
      refine ⟨[c], rest, rfl, ?_, fun h => absurd h (List.cons_ne_nil c []), rfl⟩
      rcases Bool.or_eq_true_iff.mp hc with hc | hc <;> rw [beq_iff_eq.mp hc] <;> decide
    · next hc =>
      refine ⟨[], c :: rest, rfl, by decide, fun _ d hd => ?_, rfl⟩
      cases hd
      simpa [numeralSigns] using hc

/-- It is the longest numeral, and the characters with a digit value that follow that one. -/
theorem exists_longestNumeral (s : List Char) :
    ∃ sign digits rest, LongestNumeral s sign digits rest ∧ Stops isDecimal rest ∧
      Value.leadingNumeral s = sign ++ (digits ++ rest.takeWhile isDigitLike) := by
  obtain ⟨sign, body, rfl, hsign, hunsigned, hnumeral⟩ := leadingNumeral_eq s
  obtain ⟨digits, rest, rfl, hdigits, hstops, -, -⟩ := exists_run isDecimal body
  refine ⟨sign, digits, rest, .of_stops hsign hdigits hstops fun hnothing c hc => ?_, hstops, ?_⟩
  · obtain ⟨hsigned, hnone⟩ := List.append_eq_nil_iff.mp hnothing
    exact hunsigned hsigned c (by rwa [hnone])
  · rw [hnumeral, List.takeWhile_append_of_pos fun c hc => isDigitLike_of_isDecimal (hdigits c hc)]

/-- A sign alone is no number. -/
theorem leadingInt_eq_zero {s : List Char} (hsign : sign ∈ numeralSigns)
    (hnumeral : Value.leadingNumeral (trim s) = sign) : Value.leadingInt s = .ok 0 := by
  have hnone : ∀ sign ∈ numeralSigns, (sign.isEmpty || sign == ['-'] || sign == ['+']) = true := by decide
  unfold Value.leadingInt
  rw [hnumeral]
  exact if_pos (hnone sign hsign)

theorem leadingInt_eq {s body : List Char} (hne : body ≠ []) (hlike : ∀ c ∈ body, isDigitLike c = true)
    (hnumeral : Value.leadingNumeral (trim s) = sign ++ body) :
    Value.leadingInt s = (Number.readInt (sign ++ body)).mapError (Value.numeralFailure (sign ++ body)) := by
  have hsome : sign ++ body ∉ numeralSigns := by
    obtain ⟨c, hc⟩ := List.exists_mem_of_ne_nil body hne
    exact not_mem_numeralSigns (hlike c hc) (List.mem_append_right sign hc)
  unfold Value.leadingInt
  rw [hnumeral]
  refine if_neg fun h => hsome ?_
  simpa [numeralSigns, or_assoc] using h

/-- **A text starts with a whole number or with none**, if its characters with a digit value are decimal
digits and not too many of them stand next to each other. -/
theorem exists_leadingInt {s : List Char} {n : Nat} (hn : n ≤ Number.maxDigits)
    (hdecimal : ∀ c ∈ s, isDigitLike c = true → isDecimal c = true)
    (hshort : RunsBelow isDecimal (n + 1) s) :
    ∃ k, Value.leadingInt s = .ok k ∧ k.natAbs < 10 ^ n := by
  obtain ⟨sign, digits, rest, hlongest, hstops, hnumeral⟩ := exists_longestNumeral (trim s)
  have hdigits := hlongest.areDigits
  have hwithin : digits ++ rest <:+: s := by
    refine List.IsInfix.trans ?_ (trim_isInfix s)
    rw [hlongest.split]
    exact (List.suffix_append sign _).isInfix
  have hlength : digits.length < n + 1 :=
    hshort digits ((List.prefix_append digits rest).isInfix.trans hwithin) hdigits
  have hlike : Stops isDigitLike rest := by
    intro c hc
    by_contra h
    rw [Bool.not_eq_false] at h
    have hmem : c ∈ s := hwithin.subset (List.mem_append_right digits (List.mem_of_head? hc))
    exact absurd ((hdecimal c hmem h).symm.trans (hstops c hc)) (by decide)
  rw [takeWhile_of_stops hlike, List.append_nil] at hnumeral
  by_cases hne : digits = []
  · rw [hne, List.append_nil] at hnumeral
    exact ⟨0, leadingInt_eq_zero hlongest.isSign hnumeral, Nat.pow_pos (by decide)⟩
  · obtain ⟨k, hread, hk⟩ := exists_readInt_of_digits hlongest.isSign hne hdigits (by omega)
    refine ⟨k, ?_, hk.trans_le (Nat.pow_le_pow_right (by decide) (Nat.lt_succ_iff.mp hlength))⟩
    rw [leadingInt_eq hne (fun c hc => isDigitLike_of_isDecimal (hdigits c hc)) hnumeral, hread]
    rfl

/-- **What a text starts with.** Take the longest prefix of a text without the blanks at its ends that is an
optional sign followed by decimal digits, of any script. Its whole number is the one of the text, zero if it
has no digit, if no other character with a digit value follows and the digits are at most 4300; otherwise the
text has none, and its conversion fails. -/
theorem leading_integer_denoted (loops : Loops) (s : String) :
    ∃ sign digits rest, LongestNumeral (trim s.toList) sign digits rest ∧
      (Stops isDigitLike rest ∧ digits.length ≤ Number.maxDigits →
        (Value.str s).toInt loops = .ok (denoted sign digits)) ∧
      (¬ (Stops isDigitLike rest ∧ digits.length ≤ Number.maxDigits) →
        ∃ text, (Value.str s).toInt loops = .error (.badValue text)) := by
  obtain ⟨sign, digits, rest, hlongest, hstops, hnumeral⟩ := exists_longestNumeral (trim s.toList)
  have hmore : ∀ c ∈ rest.takeWhile isDigitLike, isDigitLike c = true :=
    List.all_eq_true.mp List.all_takeWhile
  have hlike : ∀ c ∈ digits ++ rest.takeWhile isDigitLike, isDigitLike c = true :=
    List.forall_mem_append.mpr ⟨fun c hc => isDigitLike_of_isDecimal (hlongest.areDigits c hc), hmore⟩
  have hconverted : (Value.str s).toInt loops = Value.leadingInt s.toList := rfl
  refine ⟨sign, digits, rest, hlongest, ?_⟩
  rw [hconverted, ← takeWhile_eq_nil_iff]
  by_cases hne : digits ++ rest.takeWhile isDigitLike = []
  · obtain ⟨hnone, hnothing⟩ := List.append_eq_nil_iff.mp hne
    rw [hne, List.append_nil] at hnumeral
    refine ⟨fun _ => ?_, fun h => absurd ⟨hnothing, ?_⟩ h⟩
    · rw [leadingInt_eq_zero hlongest.isSign hnumeral, hnone, denoted_nil]
    · rw [hnone]
      exact Nat.zero_le _
  · have hstops : Stops isDecimal (rest.takeWhile isDigitLike) := by
      rw [← List.takeWhile_append_dropWhile (p := isDigitLike) (l := rest)] at hstops
      exact hstops.left
    rw [leadingInt_eq hne hlike hnumeral,
      readInt_signed hlongest.isSign hlongest.areDigits hmore hstops hne]
    constructor
    · rintro ⟨hnothing, hshort⟩
      rw [if_neg (Nat.not_lt.mpr hshort), if_pos hnothing]
      rfl
    · intro h
      split
      · exact ⟨_, rfl⟩
      · split
        · next hlong hnothing => exact absurd ⟨hnothing, Nat.not_lt.mp hlong⟩ h
        · exact ⟨_, rfl⟩

/-- A superscript two has a digit value and is no decimal digit: the text starts with no numeral, and its
conversion fails where zero is expected. -/
theorem leading_integer_superscript : LongestNumeral (trim "²".toList) [] [] ['²'] ∧
    ∃ text, (Value.str "²").toInt #[] = .error (.badValue text) := by
  have hsuperscript : isDecimal '²' = false ∧ isDigitLike '²' = true := by decide +kernel
  have htrim : trim "²".toList = [] ++ ([] ++ ['²']) := by decide +kernel
  have hnumeral : Value.leadingNumeral (trim "²".toList) = [] ++ ['²'] := by decide +kernel
  have hread : Number.readInt ([] ++ ['²']) = .error .invalid := by decide +kernel
  constructor
  · rw [htrim]
    exact .of_stops (by decide) (List.forall_mem_nil _) (stops_cons.mpr hsuperscript.1) fun _ => by decide
  · have hconverted : (Value.str "²").toInt #[] = Value.leadingInt "²".toList := rfl
    rw [hconverted, leadingInt_eq (List.cons_ne_nil _ _) (List.forall_mem_singleton.mpr hsuperscript.2)
      hnumeral, hread]
    exact ⟨_, rfl⟩

/-! ## Decimals -/

/-- Digits do not spell a word. -/
theorem isWordNoCase_digits {word : String} (hword : word ∈ ["inf", "infinity", "nan"]) {c : Char}
    (hc : isDecimal c = true) (rest : List Char) : Number.isWordNoCase word (c :: rest) = false := by
  have hlower : c.toLower ≠ 'i' ∧ c.toLower ≠ 'n' := by
    by_cases hascii : c.toNat < 128
    · have hall : ∀ n < 128, isDecimal (Char.ofNat n) = true →
          (Char.ofNat n).toLower ≠ 'i' ∧ (Char.ofNat n).toLower ≠ 'n' := by decide +kernel
      exact of_ascii (p := fun c => isDecimal c = true → c.toLower ≠ 'i' ∧ c.toLower ≠ 'n') hall hascii hc
    · -- only letters of the basic set have another lower case
      have hsame : c.toLower = c := by
        unfold Char.toLower
        rw [dif_neg]
        rintro ⟨-, hle⟩
        exact hascii (Nat.lt_of_le_of_lt (UInt32.le_iff_toNat_le.mp hle) (by decide))
      rw [hsame]
      constructor <;> rintro rfl <;> exact hascii (by decide)
  have hfirst : ∀ word ∈ ["inf", "infinity", "nan"], word.toList.head? = some 'i' ∨
      word.toList.head? = some 'n' := by decide
  refine Bool.eq_false_iff.mpr fun h => ?_
  have hhead := congrArg List.head? (beq_iff_eq.mp h)
  rw [List.map_cons, List.head?_cons] at hhead
  rcases hfirst word hword with hword | hword <;> rw [hword] at hhead
  · exact hlower.1 (Option.some.inj hhead)
  · exact hlower.2 (Option.some.inj hhead)

/-- What is read behind a sign is a decimal, if it starts and ends with a digit. -/
theorem readBinary_signed (hsign : sign ∈ numeralSigns) {body : List Char} (hne : body ≠ [])
    (hfirst : ∀ c ∈ body.head?, isDecimal c = true) (hlast : ∀ c ∈ body.getLast?, isDecimal c = true) :
    Number.readBinary 0 (sign ++ body) = Number.readDecimal (sign == ['-']) body := by
  have htrim : trim (sign ++ body) = sign ++ body :=
    trim_signed hsign hne (fun c hc => isBlank_of_isDecimal (hfirst c hc))
      fun c hc => isBlank_of_isDecimal (hlast c hc)
  have hsplit : Number.splitSign (sign ++ body) = (sign == ['-'], body) :=
    splitSign_append hsign fun c hc =>
      not_mem_numeralSigns (isDigitLike_of_isDecimal (hfirst c hc)) (List.mem_singleton_self c)
  obtain ⟨c, rest, rfl⟩ := List.exists_cons_of_ne_nil hne
  have hc : isDecimal c = true := hfirst c rfl
  unfold Number.readBinary
  rw [htrim, hsplit]
  dsimp only
  rw [isWordNoCase_digits (by decide) hc, isWordNoCase_digits (by decide) hc,
    isWordNoCase_digits (by decide) hc]
  rfl

theorem readDecimal_whole (negative : Bool) (hne : digits ≠ [])
    (hdigits : ∀ c ∈ digits, isDecimal c = true) : Number.readDecimal negative digits =
      some (Number.binaryOfDigits negative (digitValues digits) [] 0) := by
  have hvalues : (digitValues digits).isEmpty = false := by simpa using hne
  unfold Number.readDecimal
  rw [Number.takeDigits_digits hdigits]
  simp only [Option.bind_eq_bind, Option.bind_some, hvalues]
  rfl

theorem readDecimal_part (negative : Bool) (hne : digits ≠ [])
    (hdigits : ∀ c ∈ digits, isDecimal c = true) {part : List Char}
    (hpart : ∀ c ∈ part, isDecimal c = true) : Number.readDecimal negative (digits ++ '.' :: part) =
      some (Number.binaryOfDigits negative (digitValues digits) (digitValues part) 0) := by
  have htake : Number.takeDigits false (digits ++ '.' :: part) = some (digitValues digits, '.' :: part) :=
    Number.takeDigits_run hdigits (stops_cons.mpr (by decide)) (by simp) false
  have hvalues : (digitValues digits).isEmpty = false := by simpa using hne
  unfold Number.readDecimal
  rw [htake]
  simp only [Option.bind_eq_bind, Option.bind_some, Number.takeDigits_digits hpart, hvalues]
  rfl

theorem exists_binaryOfDigits_of_decimals (negative : Bool) {digits part : List Char}
    (hdigits : ∀ c ∈ digits, isDecimal c = true) (hpart : ∀ c ∈ part, isDecimal c = true)
    (hshort : digits.length < 309) (hpartShort : part.length < 309) : ∃ m e,
    Number.binaryOfDigits negative (digitValues digits) (digitValues part) 0 = .finite negative m e ∧
      m ≤ 10 ^ 616 * 2 ^ 1074 + 1 ∧ e ≤ 972 := by
  have hlength := Number.length_digitValues digits
  have hpartLength := Number.length_digitValues part
  obtain ⟨m, e, hbinary, hm, he⟩ := Number.exists_binaryOfDigits negative (Number.digitValues_lt hdigits)
    (Number.digitValues_lt hpart) (by omega)
  refine ⟨m, e, hbinary, hm.trans (Nat.add_le_add_right (Nat.mul_le_mul_right _ ?_) 1), he⟩
  apply Nat.pow_le_pow_right <;> omega

/-- **A number is read as one that is finite**, and not too large, if at most 308 of its digits stand next to
each other. -/
theorem exists_readBinary_of_number {chars after : List Char} (hstarts : Lexeme.Starts ⟨.number, chars⟩ after)
    (hshort : RunsBelow isDecimal 309 chars) :
    ∃ negative m e, Number.readBinary 0 chars = some (.finite negative m e) ∧
      m ≤ 10 ^ 616 * 2 ^ 1074 + 1 ∧ e ≤ 972 := by
  have hall : ∀ sign : List Char, sign = [] ∨ sign = ['-'] → sign ∈ numeralSigns := by
    rintro _ (rfl | rfl) <;> decide
  cases hstarts with
  | @whole sign digits _ hsign hne hdigit _ _ =>
    have hread := readBinary_signed (hall sign hsign) hne
      (fun c hc => hdigit c (List.mem_of_head? hc)) (fun c hc => hdigit c (List.mem_of_getLast? hc))
    obtain ⟨m, e, hbinary, hm, he⟩ := exists_binaryOfDigits_of_decimals (sign == ['-']) hdigit
      (List.forall_mem_nil _) (hshort digits (List.suffix_append sign digits).isInfix hdigit)
      (by simp)
    refine ⟨sign == ['-'], m, e, ?_, hm, he⟩
    rw [hread, readDecimal_whole _ hne hdigit]
    exact congrArg some hbinary
  | @decimal sign digits part _ hsign hne hdigit hpartNe hpart _ =>
    have hlast : ∀ c ∈ (digits ++ '.' :: part).getLast?, isDecimal c = true := by
      intro c hc
      rw [List.append_cons, List.getLast?_append_of_ne_nil _ hpartNe] at hc
      exact hpart c (List.mem_of_getLast? hc)
    have hfirst : ∀ c ∈ (digits ++ '.' :: part).head?, isDecimal c = true := by
      intro c hc
      rw [List.head?_append_of_ne_nil _ hne] at hc
      exact hdigit c (List.mem_of_head? hc)
    have hread := readBinary_signed (hall sign hsign) (by simp) hfirst hlast
    obtain ⟨m, e, hbinary, hm, he⟩ := exists_binaryOfDigits_of_decimals (sign == ['-']) hdigit hpart
      (hshort digits ⟨sign, '.' :: part, rfl⟩ hdigit)
      (hshort part ⟨sign ++ digits ++ ['.'], [], by simp⟩ hpart)
    refine ⟨sign == ['-'], m, e, ?_, hm, he⟩
    rw [List.append_assoc, hread, readDecimal_part _ hne hdigit hpart]
    exact congrArg some hbinary
  | single hkind _ _ => exact absurd rfl (Lexeme.Kind.ne_of_ofChar? hkind (by decide))

end Stencil
