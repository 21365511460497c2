import Stencil.Proofs.Value.Refusals

/-!
# Numbers and ranges that are too large

A filter is blamed for what misuses a value (`Failure.IsMisuse`). The operations on values fail in one other way
that is no error of the template (`Escaping`): something is too large. This is so

* when a whole number above all floating-point numbers meets a floating-point number (`Numeric.Clashes`),
* when a number is above all of them once it is rounded, or an infinity is to be a whole number
  (`Numeric.RoundsAway`, `Value.IsInfinite`),
* when a range has more items than can be counted (`Value.IsTooLong`),

and in no other case, as the lemmas say for each operation.
-/

namespace Stencil

open Failure (IsHost IsMisuse)

/-! ## Failures that nothing is blamed for -/

/-- The failure is one of the host, and no misuse of a value. -/
def Failure.Escapes (e : Failure) : Prop := e.IsHost ∧ ¬ e.IsMisuse

theorem Failure.IsMisuse.not_escapes {e : Failure} (he : e.IsMisuse) : ¬ e.Escapes := fun h => h.2 he

@[simp] theorem Failure.not_escapes_template (e : TemplateError) : ¬ Escapes (.template e) :=
  fun ⟨⟨_, h⟩, _⟩ => nomatch h

@[simp] theorem Failure.escapes_overflow (text : String) : (overflow text).Escapes := by
  refine ⟨⟨_, rfl⟩, fun ⟨other, h⟩ => ?_⟩
  rcases h with h | h <;> cases h

/-- The outcome is a failure of the host that is no misuse of a value. -/
def Escaping {α : Type} (x : Outcome α) : Prop := ∃ e, x = .error e ∧ e.Escapes

section

variable {α β : Type} {x : Outcome α}

@[simp] theorem escaping_ok (a : α) : ¬ Escaping (.ok a : Outcome α) := fun ⟨_, h, _⟩ => nomatch h

@[simp] theorem escaping_error (e : Failure) : Escaping (.error e : Outcome α) ↔ e.Escapes := by
  simp [Escaping]

theorem FailsOnly.not_escaping (hx : FailsOnly IsMisuse x) : ¬ Escaping x :=
  fun ⟨e, he, hescapes⟩ => (hx e he).not_escapes hescapes

theorem escaping_bind (x : Outcome α) (f : α → Outcome β) :
    Escaping (x >>= f) ↔ Escaping x ∨ ∃ a, x = .ok a ∧ Escaping (f a) := by
  cases x with
  | error e => simp [Bind.bind, Except.bind]
  | ok a => simp [Bind.bind, Except.bind]

@[simp] theorem escaping_map (x : Outcome α) (f : α → β) : Escaping (x.map f) ↔ Escaping x := by
  cases x <;> simp [Except.map]

end

/-! ## Arithmetic -/

namespace Numeric

/-- One of two numbers is a whole number that is above all floating-point numbers, and the other one is a
floating-point number. -/
def Clashes (a b : Numeric) : Prop :=
  match a, b with
  | .int n, .float _ | .float _, .int n => ∃ negative, Binary64.ofInt n = .infinite negative
  | _, _ => False

theorem escaping_floatOfInt (n : Int) :
    Escaping (floatOfInt n) ↔ ∃ negative, Binary64.ofInt n = .infinite negative := by
  unfold floatOfInt
  cases Binary64.ofInt n with
  | infinite negative => simp [Failure.integerTooLarge]
  | nan | finite => simp

theorem escaping_combine (onInts : Int → Int → Int) (onFloats : Binary64 → Binary64 → Binary64)
    (a b : Numeric) : Escaping (combine onInts onFloats a b) ↔ a.Clashes b := by
  cases a with
  | int m =>
    cases b with
    | int n => simp [combine, Clashes]
    | float y =>
      rw [Clashes, ← escaping_floatOfInt m]
      simp only [combine, toFloat, escaping_bind]
      simp [pure, Except.pure]
  | float x =>
    cases b with
    | int n =>
      rw [Clashes, ← escaping_floatOfInt n]
      simp only [combine, toFloat, escaping_bind]
      simp [pure, Except.pure]
    | float y => simp [combine, toFloat, Clashes, escaping_bind, pure, Except.pure]

theorem escaping_truncateFloat (x : Binary64) :
    Escaping (truncateFloat x) ↔ ∃ negative, x = .infinite negative := by
  cases x with
  | nan mark => simpa [truncateFloat, Failure.nanToInteger] using (Failure.isMisuse_badValue _).not_escapes
  | infinite negative => simp [truncateFloat, Failure.infinityToInteger]
  | finite s m e => simp [truncateFloat]

/-- Rounding the number to decimal places gives one above all floating-point numbers, or an infinity where a whole
number is asked for. -/
def RoundsAway (places : Int) (a : Numeric) : Prop :=
  ∃ x, a = .float x ∧
    (x.roundDecimal? places = none ∨ places = 0 ∧ ∃ negative, x = .infinite negative)

end Numeric

namespace Value

/-- The value is an infinity, which has no whole part. -/
def IsInfinite (v : Value) : Prop := ∃ negative, v = .float (.infinite negative)

/-- The value is a range with more items than can be counted. -/
def IsTooLong (v : Value) : Prop := ∃ r, v = .range r ∧ maxLength < r.count

end Value

/-- What a number is rounded to is infinite only if the number is. -/
theorem Binary64.roundDecimal?_infinite {x : Binary64} {places : Int} {negative : Bool} :
    x.roundDecimal? places = some (.infinite negative) ↔ x = .infinite negative := by
  cases x with
  | finite s m e =>
    simp only [roundDecimal?]
    split
    · simp
    split
    · simp [zeroWith]
    split
    · exact ⟨nofun, nofun⟩
    · next hfinite => exact ⟨fun h => (hfinite _ (Option.some.inj h)).elim, nofun⟩
  | nan | infinite => simp [roundDecimal?]

namespace Filter

theorem escaping_dividedBy (a b : Numeric) :
    Escaping (dividedBy a b) ↔ b.isZero = false ∧ a.Clashes b := by
  unfold dividedBy
  split
  · next hzero => simp [hzero, byZero]
  · next hzero => simp [hzero, Numeric.div, Numeric.escaping_combine]

theorem escaping_modulo (a b : Numeric) : Escaping (modulo a b) ↔ b.isZero = false ∧ a.Clashes b := by
  unfold modulo
  split
  · next hzero => simp [hzero, byZero]
  · next hzero => simp [hzero, Numeric.mod, Numeric.escaping_combine]

theorem escaping_round (places : Int) (a : Numeric) :
    Escaping (round places a) ↔ a.RoundsAway places := by
  cases a with
  | int n =>
    have hround : ∃ m, (Numeric.int n).round places = .ok (.int m) := by
      unfold Numeric.round
      dsimp only
      split <;> exact ⟨_, rfl⟩
    obtain ⟨m, hm⟩ := hround
    rw [round, hm]
    simp only [Numeric.RoundsAway, reduceCtorEq, false_and, exists_const, iff_false]
    dsimp only [Bind.bind, Except.bind]
    split <;> exact escaping_ok _
  | float x =>
    simp only [Numeric.RoundsAway, Numeric.float.injEq, exists_eq_left']
    cases hrounded : x.roundDecimal? places with
    | none => simp [round, Numeric.round, hrounded, Bind.bind, Except.bind]
    | some y =>
      have hround : (Numeric.float x).round places = .ok (.float y) := by rw [Numeric.round, hrounded]
      have hinfinite : (∃ negative, y = .infinite negative) ↔ ∃ negative, x = .infinite negative :=
        exists_congr fun negative => by
          rw [← Binary64.roundDecimal?_infinite (x := x), hrounded, Option.some.injEq]
      rw [round, hround]
      dsimp only [Bind.bind, Except.bind]
      by_cases hplaces : places = 0
      · subst hplaces
        rw [if_pos (beq_self_eq_true 0)]
        change Escaping (Numeric.truncateFloat y >>= fun n => pure (Numeric.int n)) ↔ _
        rw [escaping_bind, Numeric.escaping_truncateFloat, hinfinite]
        simp [pure, Except.pure]
      · rw [if_neg (mt beq_iff_eq.mp hplaces)]
        simp [pure, Except.pure, hplaces]

/-! ## Ranges -/

theorem escaping_items (v : Value) : Escaping (items v) ↔ v.IsTooLong := by
  cases v with
  | range r =>
    simp only [items, Value.IsTooLong, Value.range.injEq, exists_eq_left']
    split <;> simp_all [Failure.tooManyItems]
  | _ => simp [items, Value.IsTooLong]

theorem escaping_members (v : Value) : Escaping (members v) ↔ v.IsTooLong := by
  unfold members
  split
  · simp [Value.IsTooLong]
  · exact escaping_items v

theorem escaping_size (v : Value) : Escaping (size v) ↔ v.IsTooLong := by
  cases v with
  | range r =>
    simp only [size, Value.length?, Option.getD_some, Value.IsTooLong, Value.range.injEq, exists_eq_left']
    split <;> simp_all [Failure.tooManyItems]
  | _ => simp [size, Value.length?, Value.IsTooLong]

theorem escaping_isMissing (allowFalse : Bool) (v : Value) :
    Escaping (isMissing allowFalse v) ↔ v.IsTooLong := by
  cases v with
  | range r =>
    simp only [isMissing, Value.length?, escaping_map, Value.IsTooLong, Value.range.injEq, exists_eq_left']
    split <;> simp_all [Failure.tooManyItems]
  | bool b => cases b <;> simp [isMissing, Value.length?, Value.IsTooLong]
  | _ => simp [isMissing, Value.length?, Value.IsTooLong]

theorem not_escaping_sortKeyed (ks : List Value.Keyed) : ¬ Escaping (sortKeyed ks) := by
  unfold sortKeyed
  split <;> simp

end Filter

/-! ## Whole numbers -/

theorem Value.escaping_toInt (loops : Loops) (v : Value) : Escaping (v.toInt loops) ↔ v.IsInfinite := by
  have htext (v : Value) : ¬ Escaping (do leadingInt (← v.written loops).toList) :=
    ((failsOnly_written loops v).bind fun _ _ => failsOnly_leadingInt _).not_escaping
  cases v with
  | float x => simp [toInt, Numeric.escaping_truncateFloat, IsInfinite]
  | nil | bool | int => simp [toInt, IsInfinite]
  | _ => exact iff_of_false (htext _) (by simp [IsInfinite])

end Stencil
