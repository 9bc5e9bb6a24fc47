set_option autoImplicit false

/-!
Sets of characters given by closed ranges of code points.
-/

namespace Accumulator.Text

/-- Whether a character lies in one of the closed ranges. -/
def inRanges (ranges : List (Nat × Nat)) (c : Char) : Bool :=
  ranges.any fun (first, last) => first ≤ c.toNat && c.toNat ≤ last

end Accumulator.Text
