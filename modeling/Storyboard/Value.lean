/-
Values that commands set: a number, a pair or a colour. Values of one shape
are mixed component by component.
-/
import Storyboard.Number.Scalar

namespace Storyboard

inductive Value (α : Type) where
  | scalar (v : α)
  | vector (x y : α)
  | color (r g b : α)
  deriving DecidableEq

namespace Value

variable {α : Type}

/-- The components, in order. -/
def components : Value α → List α
  | scalar v => [v]
  | vector x y => [x, y]
  | color r g b => [r, g, b]

/-- How many components there are. -/
def arity (v : Value α) : Nat := v.components.length

/-- Same shape, and components that compare equal. -/
protected def beq [BEq α] : Value α → Value α → Bool
  | scalar a, scalar b => a == b
  | vector a b, vector c d => a == c && b == d
  | color a b c, color d e f => a == d && b == e && c == f
  | _, _ => false

instance [BEq α] : BEq (Value α) := ⟨Value.beq⟩

/-- The way from `a` to `b`, of which a part `p` has been covered. -/
def mix [Scalar α] (p a b : α) : α := a + (b - a) * p

/-- Between two values of one shape; the first value if the shapes differ. -/
def lerp [Scalar α] (v w : Value α) (p : α) : Value α :=
  match v, w with
  | scalar a, scalar b => scalar (mix p a b)
  | vector a b, vector c d => vector (mix p a c) (mix p b d)
  | color a b c, color d e f => color (mix p a d) (mix p b e) (mix p c f)
  | v, _ => v

end Value

end Storyboard
