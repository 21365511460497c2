import Stencil.Expr.Reading
import Stencil.Proofs.Value.Failures

/-!
# How the reading of an expression fails

An expression that cannot be read fails with an error of the host, never with a complaint: a whole number has
too many digits, or an end of a range that is made at once has no whole number.
-/

namespace Stencil

open Failure (IsHost)

namespace Expr

theorem failsOnly_between (first last : Expr) : FailsOnly IsHost (between first last) := by
  unfold between
  split
  · split
    · exact failsOnly_ok _
    · exact (Value.failsOnly_toInt _ _).bind fun _ _ => (Value.failsOnly_toInt _ _).bind fun _ _ =>
        failsOnly_ok _
  · exact failsOnly_ok _

theorem failsOnly_readWithin (fuel : Nat) (s : List Char) : FailsOnly IsHost (readWithin fuel s) := by
  induction fuel generalizing s with
  | zero => exact failsOnly_ok _
  | succ fuel ih =>
    have hroot (part : Part) : FailsOnly IsHost (part.toRoot (readWithin fuel)) := by
      cases part with
      | name s => exact failsOnly_ok _
      | index content => exact ih content
    have hstep (part : Part) : FailsOnly IsHost (part.toStep (readWithin fuel)) := by
      cases part with
      | name s => exact failsOnly_ok _
      | index content => exact (ih content).map _
    unfold readWithin
    dsimp only
    -- in the order in which it is decided what the text is
    split
    · exact failsOnly_ok _
    split
    · exact failsOnly_ok _
    split
    · exact (FailsOnly.isHost (failsOnly_mapError (Value.isMisuse_numeralFailure _))).map _
    split
    · exact (ih _).bind fun _ _ => (ih _).bind fun _ _ => failsOnly_between _ _
    split
    · exact failsOnly_ok _
    split
    · exact failsOnly_ok _
    · exact (hroot _).bind fun _ _ => (failsOnly_mapM fun part _ => hstep part).bind fun _ _ =>
        failsOnly_ok _

/-- **Reading an expression fails only with errors of the host.** -/
theorem failsOnly_read (s : List Char) : FailsOnly IsHost (read s) := failsOnly_readWithin _ s

mutual

theorem failsOnly_shown (e : Expr) : FailsOnly IsHost e.shown :=
  match e with
  | .value v => by
    unfold shown
    exact (Value.failsOnly_shown _ v).isHost
  | .lookup root path => by
    unfold shown
    exact (failsOnly_shown root).bind fun _ _ => (failsOnly_shownPath path).bind fun _ _ =>
      failsOnly_ok _
  | .range first last => by
    unfold shown
    exact (failsOnly_shown first).bind fun _ _ => (failsOnly_shown last).bind fun _ _ => failsOnly_ok _

theorem failsOnly_shownPath (path : List Step) : FailsOnly IsHost (shownPath path) :=
  match path with
  | [] => by
    unfold shownPath
    exact failsOnly_ok []
  | .name s :: rest => by
    unfold shownPath
    exact (failsOnly_shownPath rest).bind fun _ _ => failsOnly_ok _
  | .index e :: rest => by
    unfold shownPath
    exact (failsOnly_shown e).bind fun _ _ => (failsOnly_shownPath rest).bind fun _ _ => failsOnly_ok _

end

end Expr

end Stencil
