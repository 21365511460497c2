/-!
Rows of case mappings: characters at a regular distance that all map by the same difference.
-/

namespace Stencil.Text

/-- The characters `first, first + step, …, last`, each mapped to itself plus `shift`. -/
structure CaseRun where
  first : Nat
  last : Nat
  step : Nat
  shift : Int

namespace CaseRun

/-- Whether the row holds the code point. -/
def covers (run : CaseRun) (n : Nat) : Bool :=
  run.first ≤ n && n ≤ run.last && (n - run.first) % run.step == 0

/-- The image of a code point of the row. -/
def map (run : CaseRun) (n : Nat) : Nat := (n + run.shift).toNat

end CaseRun

end Stencil.Text
