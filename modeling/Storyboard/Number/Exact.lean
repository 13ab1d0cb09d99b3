/-
Rationals as a number system: exact arithmetic, no special values.
-/
import Storyboard.Number.Scalar

namespace Storyboard

instance : Scalar Rat where
  ofNat n := (n : Rat)
  precedes a b := decide (a ≤ b)
  reading := .finite

end Storyboard
