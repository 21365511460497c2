import Stencil.Proofs.Fallible
import Stencil.Value.Convert

/-!
# How operations on values fail

Writing a value and converting it to a whole number fail only with errors of the host. Writing and reading a
number misuses a value (`Failure.IsMisuse`): it has too many digits, or there are characters in it that are no
decimal digits. A floating-point number that has no whole part may be too large for it.
-/

namespace Stencil

namespace Failure

/-- An error of the host. -/
def IsHost (e : Failure) : Prop := ∃ h : HostError, e = .host h

/-- An operation on a value of the wrong type or outside its domain. -/
def IsMisuse (e : Failure) : Prop := ∃ text, e = .badType text ∨ e = .badValue text

theorem isMisuse_badType (text : String) : (badType text).IsMisuse := ⟨text, .inl rfl⟩

theorem isMisuse_badValue (text : String) : (badValue text).IsMisuse := ⟨text, .inr rfl⟩

theorem IsMisuse.isHost {e : Failure} (he : e.IsMisuse) : e.IsHost := by
  obtain ⟨text, rfl | rfl⟩ := he <;> exact ⟨_, rfl⟩

end Failure

open Failure (IsHost IsMisuse)

theorem FailsOnly.isHost {α : Type} {x : Outcome α} (hx : FailsOnly IsMisuse x) : FailsOnly IsHost x :=
  fun e he => (hx e he).isHost

namespace Value

/-! ## Texts -/

theorem failsOnly_intText (n : Int) : FailsOnly IsMisuse (intText n) := by
  unfold intText
  split
  · exact failsOnly_ok _
  · exact failsOnly_error (Failure.isMisuse_badValue _)

theorem failsOnly_spanText (r : Span) : FailsOnly IsMisuse (spanText r) := by
  unfold spanText
  refine (failsOnly_intText _).bind fun _ _ => (failsOnly_intText _).bind fun _ _ => ?_
  split
  · exact failsOnly_ok _
  · exact (failsOnly_intText _).bind fun _ _ => failsOnly_ok _

mutual

theorem failsOnly_shown (loops : Loops) (v : Value) : FailsOnly IsMisuse (v.shown loops) :=
  match v with
  | .int n => by
    unfold shown
    exact failsOnly_intText n
  | .range r => by
    unfold shown
    exact failsOnly_spanText r
  | .list xs => by
    unfold shown
    exact (failsOnly_shownAll loops xs).bind fun _ _ => failsOnly_ok _
  | .tuple xs => by
    unfold shown
    refine (failsOnly_shownAll loops xs).bind fun parts _ => ?_
    split <;> exact failsOnly_ok _
  | .map es => by
    unfold shown
    exact (failsOnly_shownEntries loops es).bind fun _ _ => failsOnly_ok _
  | .nil | .bool _ | .float _ | .str _ | .literal _ | .function .. | .proxy .. | .sealed ..
  | .version _ | .drop .. | .loop _ => by
    unfold shown
    exact failsOnly_ok _
termination_by structural v

theorem failsOnly_shownAll (loops : Loops) (xs : List Value) : FailsOnly IsMisuse (shownAll loops xs) :=
  match xs with
  | [] => by
    unfold shownAll
    exact failsOnly_ok []
  | x :: rest => by
    unfold shownAll
    exact (failsOnly_shown loops x).bind fun _ _ => (failsOnly_shownAll loops rest).bind fun _ _ =>
      failsOnly_ok _
termination_by structural xs

theorem failsOnly_shownEntries (loops : Loops) (es : List (Value × Value)) :
    FailsOnly IsMisuse (shownEntries loops es) :=
  match es with
  | [] => by
    unfold shownEntries
    exact failsOnly_ok []
  | (k, v) :: rest => by
    unfold shownEntries
    exact (failsOnly_shown loops k).bind fun _ _ => (failsOnly_shown loops v).bind fun _ _ =>
      (failsOnly_shownEntries loops rest).bind fun _ _ => failsOnly_ok _
termination_by structural es

end

theorem failsOnly_written (loops : Loops) (v : Value) : FailsOnly IsMisuse (v.written loops) := by
  unfold written
  split
  · exact failsOnly_ok _
  · exact failsOnly_ok _
  · exact failsOnly_shown loops v

/-! ## Whole numbers -/

theorem isMisuse_numeralFailure (s : List Char) (e : Number.NumeralError) : (numeralFailure s e).IsMisuse := by
  cases e <;> exact Failure.isMisuse_badValue _

theorem failsOnly_leadingInt (s : List Char) : FailsOnly IsMisuse (leadingInt s) := by
  unfold leadingInt
  dsimp only
  split
  · exact failsOnly_ok 0
  · exact failsOnly_mapError (isMisuse_numeralFailure _)

theorem failsOnly_truncateFloat (x : Binary64) : FailsOnly IsHost (Numeric.truncateFloat x) := by
  cases x with
  | nan mark => exact failsOnly_error ⟨_, rfl⟩
  | infinite negative => exact failsOnly_error ⟨_, rfl⟩
  | finite s m e => exact failsOnly_ok _

theorem failsOnly_toInt (loops : Loops) (v : Value) : FailsOnly IsHost (v.toInt loops) := by
  unfold toInt
  split
  · exact failsOnly_ok _
  · exact failsOnly_ok _
  · exact failsOnly_ok _
  · exact failsOnly_truncateFloat _
  · exact ((failsOnly_written loops v).bind fun _ _ => failsOnly_leadingInt _).isHost

end Value

end Stencil
