import Stencil.Text.Blank

/-!
# Where a run of characters ends

A scanner takes the longest run of characters of a class, and what follows it does not start with one
(`Stops`). From this, runs and gaps of blanks in front of a text are taken off as they were put there.
-/

namespace Stencil.Text

/-! ## Deciding what holds of some characters

Only the characters of a list are looked at. There are finitely many characters, and to look at all of
them would take too long. -/

instance (priority := high) decidableForallMemChars {q : Char → Prop} [DecidablePred q] (s : List Char) :
    Decidable (∀ c ∈ s, q c) :=
  List.decidableBAll q s

instance (priority := high) decidableForallMemChar? {q : Char → Prop} [DecidablePred q] :
    (o : Option Char) → Decidable (∀ c ∈ o, q c)
  | none => .isTrue fun _ h => nomatch h
  | some c => decidable_of_iff (q c) (by simp)

/-! ## The ends of runs -/

variable {p : Char → Bool} {c : Char} {s run rest : List Char}

/-- The text does not start with a character of the class. -/
def Stops (p : Char → Bool) (s : List Char) : Prop := ∀ c ∈ s.head?, p c = false

@[simp] theorem stops_nil : Stops p [] := fun _ hc => nomatch hc

@[simp] theorem stops_cons : Stops p (c :: s) ↔ p c = false := by
  simp [Stops]

theorem stops_dropWhile (p : Char → Bool) (s : List Char) : Stops p (s.dropWhile p) := by
  intro c hc
  have := List.head?_dropWhile_not p s
  rw [Option.mem_def.mp hc] at this
  simpa using this

theorem Stops.append (hs : Stops p s) (hrest : s = [] → Stops p rest) : Stops p (s ++ rest) := by
  cases s with
  | nil => exact hrest rfl
  | cons c s => simpa using hs

theorem Stops.left (hs : Stops p (s ++ rest)) : Stops p s := by
  cases s with
  | nil => exact stops_nil
  | cons c s => simpa using hs

theorem Stops.of_imp {q : Char → Bool} (hs : Stops q s) (himp : ∀ c, p c = true → q c = true) :
    Stops p s := by
  intro c hc
  cases hp : p c with
  | false => rfl
  | true => exact (himp c hp).symm.trans (hs c hc)

/-- No run is taken, just if the text does not start with one. -/
theorem takeWhile_eq_nil_iff : s.takeWhile p = [] ↔ Stops p s := by
  cases s with
  | nil => simp
  | cons c s => cases hc : p c <;> simp [List.takeWhile_cons, hc]

theorem takeWhile_of_stops (hs : Stops p s) : s.takeWhile p = [] := takeWhile_eq_nil_iff.mpr hs

theorem dropWhile_of_stops (hs : Stops p s) : s.dropWhile p = s := by
  cases s with
  | nil => rfl
  | cons c s => exact List.dropWhile_cons_of_neg (by simpa using hs)

theorem takeWhile_run (hrun : ∀ c ∈ run, p c = true) (hrest : Stops p rest) :
    (run ++ rest).takeWhile p = run := by
  rw [List.takeWhile_append_of_pos hrun, takeWhile_of_stops hrest, List.append_nil]

theorem dropWhile_run (hrun : ∀ c ∈ run, p c = true) (hrest : Stops p rest) :
    (run ++ rest).dropWhile p = rest := by
  rw [List.dropWhile_append_of_pos hrun, dropWhile_of_stops hrest]

/-- Every text is a run and something that does not go on with it. -/
theorem exists_run (p : Char → Bool) (s : List Char) :
    ∃ run rest, s = run ++ rest ∧ (∀ c ∈ run, p c = true) ∧ Stops p rest ∧
      s.takeWhile p = run ∧ s.dropWhile p = rest :=
  ⟨_, _, List.takeWhile_append_dropWhile.symm, fun _ => List.all_eq_true.mp List.all_takeWhile _,
    stops_dropWhile p s, rfl, rfl⟩

/-! ## Gaps -/

variable {gap : List Char}

/-- The text is nothing but blanks. -/
def IsGap (gap : List Char) : Prop := ∀ c ∈ gap, isBlank c = true

@[simp] theorem isGap_nil : IsGap [] := fun _ hc => nomatch hc

@[simp] theorem isGap_cons : IsGap (c :: s) ↔ isBlank c = true ∧ IsGap s := List.forall_mem_cons

theorem trimLeft_gap (hgap : IsGap gap) (s : List Char) : trimLeft (gap ++ s) = trimLeft s :=
  List.dropWhile_append_of_pos hgap

theorem trimLeft_of_isGap (hgap : IsGap gap) : trimLeft gap = [] := by
  simpa [trimLeft] using trimLeft_gap hgap []

theorem trimLeft_of_stops (hs : Stops isBlank s) : trimLeft s = s :=
  dropWhile_of_stops hs

/-- Blanks in front of a text are all that is dropped. -/
theorem exists_gap (s : List Char) :
    ∃ gap rest, s = gap ++ rest ∧ IsGap gap ∧ Stops isBlank rest ∧ trimLeft s = rest := by
  obtain ⟨gap, rest, hs, hgap, hrest, -, htrim⟩ := exists_run isBlank s
  exact ⟨gap, rest, hs, hgap, hrest, htrim⟩

theorem trimRight_of_last {s : List Char} (hs : ∀ c ∈ s.getLast?, isBlank c = false) :
    trimRight s = s := by
  induction s with
  | nil => rfl
  | cons c rest ih =>
    cases rest with
    | nil =>
      have hc : isBlank c = false := hs c rfl
      simp [trimRight, hc]
    | cons d rest =>
      rw [trimRight, ih fun e he => hs e (by simpa using he)]

theorem trim_of_ends (hfront : Stops isBlank s) (hend : ∀ c ∈ s.getLast?, isBlank c = false) :
    trim s = s := by
  rw [trim, trimLeft_of_stops hfront, trimRight_of_last hend]

end Stencil.Text
