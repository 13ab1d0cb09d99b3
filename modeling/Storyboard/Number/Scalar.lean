/-
The numbers that storyboards are made of. The library asks only for
arithmetic, comparison, a total order to sort by and a reading, so one set of
definitions serves the numbers that are stored (`Binary`) and the exact
rationals (`Exact`) in which most of its theory is stated.

Curves need a few functions that rationals do not have; they form a class of
their own, so that exact statements can leave them open.
-/
import Storyboard.Number.Reading

namespace Storyboard

/-- A number system for times, positions and component values. Comparison may
fail both ways (an undefined number), `precedes` never does: it sorts. -/
class Scalar (α : Type) extends Add α, Sub α, Mul α, Div α, Neg α, LT α, LE α, BEq α,
    OfScientific α where
  ofNat : Nat → α
  [decidableLT : DecidableLT α]
  [decidableLE : DecidableLE α]
  precedes : α → α → Bool
  reading : α → Reading

attribute [reducible, instance] Scalar.decidableLT Scalar.decidableLE

instance (priority := low) {α : Type} [Scalar α] {n : Nat} : OfNat α n := ⟨Scalar.ofNat n⟩

/-- The functions that curves use beyond arithmetic. -/
class Elementary (α : Type) where
  pi : α
  sin : α → α
  cos : α → α
  sqrt : α → α
  exp2 : α → α

namespace Scalar

variable {α : Type} [Scalar α]

/-- The later of two; the second one of two that are equal, which matters for
the sign of a zero. An undefined second one is ignored. -/
def later (a b : α) : α := if a ≤ b then b else a

/-- The latest of a list, and `a` at least; of several, the one listed last. -/
def latest (a : α) (xs : List α) : α := xs.foldl later a

/-- Less than one unit apart. -/
def within (tolerance a b : α) : Bool :=
  -tolerance < a - b && a - b < tolerance

end Scalar

/-- A point of the screen, in its own units, downwards and to the right. -/
structure Point (α : Type) where
  x : α
  y : α
  deriving DecidableEq

end Storyboard
