import Stencil.Filter.Basic
import Stencil.Filter.OnItems
import Stencil.Filter.OnNumber
import Stencil.Proofs.Value.Failures
import Stencil.Value.Compare

/-!
# What comparisons, conversions and filters refuse

Besides errors of the host, the operations on values fail with bad arguments and with nothing else
(`Failure.IsRefusal`): values that cannot be compared or sorted, ends of ranges that are no whole numbers, and
divisions by zero.
-/

namespace Stencil

namespace Failure

/-- An error of the host, or the refusal of an argument. -/
def IsRefusal (e : Failure) : Prop :=
  e.IsHost ∨ ∃ message, e = .template (.badArgument message)

theorem IsHost.isRefusal {e : Failure} (he : e.IsHost) : e.IsRefusal := .inl he

theorem isRefusal_host (h : HostError) : IsRefusal (.host h) := .inl ⟨h, rfl⟩

theorem isRefusal_badArgument (message : String) : IsRefusal (.template (.badArgument message)) :=
  .inr ⟨message, rfl⟩

end Failure

open Failure (IsHost IsMisuse IsRefusal)

theorem FailsOnly.isRefusal {α : Type} {x : Outcome α} (hx : FailsOnly IsHost x) :
    FailsOnly IsRefusal x := fun e he => (hx e he).isRefusal

/-! ## Numbers -/

namespace Numeric

theorem failsOnly_toFloat (a : Numeric) : FailsOnly IsHost a.toFloat := by
  cases a with
  | int n =>
    unfold toFloat floatOfInt
    dsimp only
    cases Binary64.ofInt n with
    | infinite negative => exact failsOnly_error ⟨_, rfl⟩
    | nan | finite => exact failsOnly_ok _
  | float x => exact failsOnly_ok x

theorem failsOnly_combine (onInts : Int → Int → Int) (onFloats : Binary64 → Binary64 → Binary64)
    (a b : Numeric) : FailsOnly IsHost (combine onInts onFloats a b) := by
  unfold combine
  split
  · exact failsOnly_ok _
  · exact (failsOnly_toFloat _).bind fun _ _ => (failsOnly_toFloat _).bind fun _ _ => failsOnly_ok _

theorem failsOnly_round (a : Numeric) (places : Int) : FailsOnly IsHost (a.round places) := by
  unfold round
  split
  · split <;> exact failsOnly_ok _
  · split
    · exact failsOnly_ok _
    · exact failsOnly_error ⟨_, rfl⟩

theorem failsOnly_truncate (a : Numeric) : FailsOnly IsHost a.truncate := by
  cases a with
  | int n => exact failsOnly_ok n
  | float x => exact Value.failsOnly_truncateFloat x

end Numeric

namespace Value

/-! ## Conversions -/

theorem failsOnly_toInteger (loops : Loops) (v : Value) : FailsOnly IsRefusal (v.toInteger loops) := by
  unfold toInteger
  split
  · exact failsOnly_ok _
  · dsimp only
    split
    · exact failsOnly_error (Failure.isRefusal_badArgument _)
    · next e _ hwritten => exact failsOnly_error (failsOnly_written loops _ _ hwritten).isHost.isRefusal
    · exact failsOnly_mapError fun _ => Failure.isRefusal_badArgument _

theorem failsOnly_toRangeEnd (loops : Loops) (v : Value) : FailsOnly IsRefusal (v.toRangeEnd loops) := by
  unfold toRangeEnd
  split
  · exact failsOnly_ok _
  · exact failsOnly_ok _
  · exact (failsOnly_toInt loops _).isRefusal
  · exact failsOnly_toInteger loops _

theorem failsOnly_toNumber (loops : Loops) (v : Value) : FailsOnly IsMisuse (v.toNumber loops) := by
  unfold toNumber
  split
  · exact failsOnly_ok _
  · exact failsOnly_ok _
  · refine (failsOnly_written loops v).bind fun _ _ => ?_
    dsimp only
    split
    · exact failsOnly_ok _
    · split <;> exact failsOnly_ok _

mutual

theorem failsOnly_output (loops : Loops) (v : Value) : FailsOnly IsMisuse (v.output loops) :=
  match v with
  | .list xs | .tuple xs => by
    unfold output
    exact failsOnly_outputAll loops xs
  | .range r => by
    unfold output
    split
    · exact (failsOnly_intText _).bind fun _ _ => (failsOnly_intText _).bind fun _ _ => failsOnly_ok _
    · exact (failsOnly_mapM fun _ _ => failsOnly_intText _).bind fun _ _ => failsOnly_ok _
  | .int n => by
    unfold output
    exact failsOnly_intText n
  | .map es => by
    unfold output
    exact failsOnly_written loops _
  | .nil | .bool _ | .float _ | .str _ | .literal _ | .function .. | .proxy .. | .sealed ..
  | .version _ | .drop .. | .loop _ => by
    unfold output
    exact failsOnly_ok _
termination_by structural v

theorem failsOnly_outputAll (loops : Loops) (xs : List Value) : FailsOnly IsMisuse (outputAll loops xs) :=
  match xs with
  | [] => by
    unfold outputAll
    exact failsOnly_ok _
  | x :: rest => by
    unfold outputAll
    exact (failsOnly_output loops x).bind fun _ _ => (failsOnly_outputAll loops rest).bind fun _ _ =>
      failsOnly_ok _
termination_by structural xs

end

/-! ## Lengths and entries -/

theorem failsOnly_length {v : Value} {length : Outcome Nat} (h : v.length? = some length) :
    FailsOnly IsHost length := by
  unfold length? at h
  split at h
  · cases h
    exact failsOnly_ok _
  · cases h
    exact failsOnly_ok _
  · cases h
    exact failsOnly_ok _
  · cases h
    exact failsOnly_ok _
  · cases h
    split
    · exact failsOnly_error ⟨_, rfl⟩
    · exact failsOnly_ok _
  · cases h

theorem failsOnly_entry (es : List (Value × Value)) (key : Value) :
    FailsOnly IsMisuse (Value.entry? es key) := by
  unfold entry?
  split
  · exact failsOnly_error (Failure.isMisuse_badType _)
  · exact failsOnly_ok _

/-! ## Comparisons -/

theorem failsOnly_equal (v w : Value) : FailsOnly IsHost (v.equal w) := by
  have haccepts (l : Literal) (v : Value) : FailsOnly IsHost (l.accepts v) := by
    unfold Literal.accepts
    dsimp only
    split
    · exact failsOnly_ok _
    · exact failsOnly_ok _
    · exact failsOnly_ok _
    · split
      · next length hlength => exact (failsOnly_length hlength).map _
      · exact failsOnly_ok _
  unfold equal
  split
  · exact haccepts _ _
  · exact haccepts _ _
  · exact failsOnly_ok _

theorem failsOnly_ordered (accepts : Ordering → Bool) (v w : Value) :
    FailsOnly IsRefusal (v.ordered accepts w) := by
  unfold ordered
  split
  · refine FailsOnly.map ?_ _
    unfold Scalar.compare
    split
    · exact failsOnly_ok _
    · exact failsOnly_ok _
    · exact failsOnly_ok _
    · exact failsOnly_error (Failure.isRefusal_badArgument _)
  · exact failsOnly_ok _

theorem failsOnly_hasMember (loops : Loops) (v w : Value) : FailsOnly IsHost (v.hasMember loops w) := by
  unfold hasMember
  split
  · exact failsOnly_ok _
  · exact failsOnly_ok _
  · exact (failsOnly_written loops _).isHost.bind fun _ _ => failsOnly_ok _
  · exact failsOnly_ok _
  · exact failsOnly_ok _
  · exact failsOnly_ok _
  · split <;> exact failsOnly_ok _
  · exact failsOnly_ok _

end Value

/-- **Comparing fails only with errors of the host and refusals.** -/
theorem Operator.failsOnly_apply (loops : Loops) (op : Operator) (v w : Value) :
    FailsOnly IsRefusal (op.apply loops v w) := by
  cases op with
  | equal => exact (Value.failsOnly_equal v w).isRefusal
  | unequal => exact (Value.failsOnly_equal v w).isRefusal.map _
  | less | greater | atLeast | atMost => exact Value.failsOnly_ordered _ v w
  | contains => exact (Value.failsOnly_hasMember loops v w).isRefusal

/-! ## Filters -/

namespace Filter

theorem failsOnly_dividedBy (a b : Numeric) : FailsOnly IsRefusal (dividedBy a b) := by
  unfold dividedBy
  split
  · exact failsOnly_error (Failure.isRefusal_badArgument _)
  · exact (Numeric.failsOnly_combine _ _ a b).isRefusal

theorem failsOnly_modulo (a b : Numeric) : FailsOnly IsRefusal (modulo a b) := by
  unfold modulo
  split
  · exact failsOnly_error (Failure.isRefusal_badArgument _)
  · exact (Numeric.failsOnly_combine _ _ a b).isRefusal

theorem failsOnly_round (places : Int) (a : Numeric) : FailsOnly IsHost (round places a) := by
  refine (Numeric.failsOnly_round a places).bind fun rounded _ => ?_
  split
  · exact (Numeric.failsOnly_truncate rounded).bind fun _ _ => failsOnly_ok _
  · exact failsOnly_ok _

theorem failsOnly_items (v : Value) : FailsOnly IsHost (items v) := by
  unfold items
  split
  · split
    · exact failsOnly_error ⟨_, rfl⟩
    · exact failsOnly_ok _
  · exact failsOnly_ok _

theorem failsOnly_members (v : Value) : FailsOnly IsHost (members v) := by
  unfold members
  split
  · exact failsOnly_ok _
  · exact failsOnly_items _

theorem failsOnly_size (v : Value) : FailsOnly IsHost (size v) := by
  unfold size
  cases hlength : v.length? with
  | none => exact failsOnly_ok 0
  | some length => exact Value.failsOnly_length hlength

theorem failsOnly_sortKeyed (ks : List Value.Keyed) : FailsOnly IsRefusal (sortKeyed ks) := by
  unfold sortKeyed
  split
  · exact failsOnly_ok _
  · exact failsOnly_error (Failure.isRefusal_badArgument _)

theorem failsOnly_isMissing (allowFalse : Bool) (v : Value) : FailsOnly IsHost (isMissing allowFalse v) := by
  unfold isMissing
  split
  · exact failsOnly_ok _
  · exact failsOnly_ok _
  · split
    · next length hlength => exact (Value.failsOnly_length hlength).map _
    · exact failsOnly_ok _

end Filter

/-- **Binding arguments fails only because they do not fit the parameters.** -/
theorem Parameters.failsOnly_bind (function : String) (parameters : List (String × Option Value))
    (args : List Value) (kwargs : Named Value) :
    FailsOnly IsMisuse (Parameters.bind function parameters args kwargs) := by
  have hcomplete (slots : List (String × Option Value × Option Value)) :
      FailsOnly IsMisuse (complete function slots) := by
    induction slots with
    | nil => exact failsOnly_ok []
    | cons slot rest ih =>
      unfold complete
      split
      · exact ih.map _
      · exact failsOnly_error (Failure.isMisuse_badType _)
  have hkeyword (slots : List (String × Option Value × Option Value)) (key : String) (v : Value) :
      FailsOnly IsMisuse (bindKeyword function slots key v) := by
    unfold bindKeyword
    split
    · exact failsOnly_error (Failure.isMisuse_badType _)
    · exact failsOnly_error (Failure.isMisuse_badType _)
    · exact failsOnly_ok _
  unfold Parameters.bind
  refine (failsOnly_foldlM fun slots entry _ => hkeyword slots entry.1 entry.2).bind fun slots _ => ?_
  dsimp only
  split
  · exact FailsOnly.bind (failsOnly_error (Failure.isMisuse_badType _)) fun _ _ => hcomplete slots
  · exact hcomplete slots

end Stencil
