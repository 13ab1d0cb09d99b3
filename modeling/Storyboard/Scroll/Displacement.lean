/-
How far a chart has scrolled.

The scroll has a velocity from each of a list of times on. Its displacement is
the integral of the velocity, zero at the first time; before that time the
first velocity is continued backwards. The integral is tabulated once: a knot
for every time, with the displacement reached there, from which the
displacement grows linearly until the next knot.
-/
import Storyboard.Number.Scalar

namespace Storyboard

/-- A velocity that holds from a time on. -/
structure Velocity (α : Type) where
  time : α
  velocity : α
  deriving DecidableEq

/-- A velocity that holds from a time on, and the displacement at that time. -/
structure Knot (α : Type) extends Velocity α where
  offset : α
  deriving DecidableEq

/-- The displacement of a chart, by its knots in order of time, and the speed
at which it is watched, by the time of watching. -/
structure Scroll (α : Type) where
  first : Knot α
  rest : List (Knot α)
  speed : α → α

variable {α : Type} [Scalar α]

namespace Velocity

/-- Velocities in order of time. -/
def inOrder (vs : List (Velocity α)) : List (Velocity α) :=
  vs.mergeSort fun v w => Scalar.precedes v.time w.time

/-- Of neighbours with equal times, the last. -/
def settle : List (Velocity α) → List (Velocity α)
  | [] => []
  | [v] => [v]
  | v :: w :: vs => if v.time == w.time then settle (w :: vs) else v :: settle (w :: vs)

/-- The velocity of a chart that gives none. -/
def standard : Velocity α := ⟨0, 1⟩

end Velocity

namespace Knot

/-- The displacement at a time, as long as the knot's velocity holds. -/
def displacement (k : Knot α) (t : α) : α := k.offset + k.velocity * (t - k.time)

/-- The knots at later velocities. -/
def integrate (k : Knot α) : List (Velocity α) → List (Knot α)
  | [] => []
  | v :: vs =>
    let next : Knot α := { v with offset := k.displacement v.time }
    next :: integrate next vs

/-- The last knot that has been reached at a time, `k` if no later one has. -/
def inForce (t : α) (k : Knot α) : List (Knot α) → Knot α
  | [] => k
  | next :: ks => if next.time ≤ t then inForce t next ks else k

end Knot

/-- The factor on velocities that makes a beat at `tempo` beats per minute
`height` pixels high when the velocity is 1. -/
def pixelsPerBeat (height tempo : α) : α := height * tempo / 60000

namespace Scroll

/-- The scroll of velocities in any order. Of velocities with equal times the
last one given counts. -/
def watchedAt (speed : α → α) (velocities : List (Velocity α)) : Scroll α :=
  match Velocity.settle (Velocity.inOrder velocities) with
  | [] => { first := { Velocity.standard with offset := 0 }, rest := [], speed }
  | v :: vs =>
    let first : Knot α := { v with offset := 0 }
    { first, rest := first.integrate vs, speed }

/-- The scroll of velocities in any order, watched at speed 1. -/
def ofVelocities (velocities : List (Velocity α)) : Scroll α :=
  watchedAt (fun _ => 1) velocities

/-- The velocities in force, in order of time. -/
def velocities (s : Scroll α) : List (Velocity α) := (s.first :: s.rest).map Knot.toVelocity

/-- How far the chart has scrolled at a time. -/
def displacement (s : Scroll α) (t : α) : α := (s.first.inForce t s.rest).displacement t

/-- How far ahead an object at one time is, seen at another, at the speed of
that time. -/
def position (s : Scroll α) (seen object : α) : α :=
  (s.displacement object - s.displacement seen) * s.speed seen

end Scroll

end Storyboard
