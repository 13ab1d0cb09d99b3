/-
Frames: instants at equal intervals, and the periods during which an object
is seen on screen, found by looking once per frame.

An object is on screen from the first frame that shows it until the first one
that does not; if the last frame still shows it, until the end. Periods
contain their start and not their end.
-/
import Storyboard.Fault
import Storyboard.Screen
import Storyboard.Scroll.Displacement

namespace Storyboard

/-- The times from a start on and before a stop. -/
structure Period (α : Type) where
  start : α
  stop : α
  deriving DecidableEq

variable {α : Type} [Scalar α]

namespace Period

def duration (p : Period α) : α := p.stop - p.start

/-- No common time. -/
def apart (p q : Period α) : Bool := p.stop ≤ q.start || q.stop ≤ p.start

/-- The periods that samples show, given since when the last one has been
open. One that is open after the last sample is closed at `stop`. -/
def ofSamples (stop : α) : (since : Option α) → (samples : List (α × Bool)) → List (Period α)
  | none, [] => []
  | some start, [] => [⟨start, stop⟩]
  | none, (t, shown) :: samples => ofSamples stop (if shown then some t else none) samples
  | some start, (t, shown) :: samples =>
    if shown then ofSamples stop (some start) samples
    else ⟨start, t⟩ :: ofSamples stop none samples

end Period

-- ========================================================= instants

/-- Frame `k` after a start. -/
def frame (start interval : α) (k : Nat) : α := start + Scalar.ofNat k * interval

/-- A number of frames by which `stop` has been reached: `n`, doubled as long
as need be, but not more often than a word of 64 bits allows. -/
def frameBound (start stop interval : α) : (doublings n : Nat) → Nat
  | 0, n => n
  | doublings + 1, n =>
    if frame start interval n < stop then frameBound start stop interval doublings (2 * n) else n

/-- The frames before `stop`. -/
def frames (start stop interval : α) : List α :=
  ((List.range (frameBound start stop interval 64 1)).map (frame start interval)).takeWhile
    fun t => t < stop

-- ========================================================== samplers

/-- Looks at the screen once per interval, from time 0 until a duration is
over. -/
structure Sampler (α : Type) where
  interval : α
  duration : α
  wide : Bool

namespace Sampler

/-- A sampler needs an interval that time can pass in, and an end. -/
def new (framerate duration : α) (wide : Bool) : Except (Fault α) (Sampler α) :=
  let interval := 1000 / framerate
  if ¬(0 < framerate ∧ (Scalar.reading interval).isFinite ∧ 0 < interval) then
    .error (.setting (.framerate framerate))
  else if !(Scalar.reading duration).isFinite then .error (.setting (.duration duration))
  else .ok { interval, duration, wide }

/-- The instants at which the sampler looks. -/
def times (s : Sampler α) : List α := frames 0 s.duration s.interval

/-- The periods during which the object hit at `object` is on screen, where
`project` turns scroll positions into points. -/
def periods (s : Sampler α) (scroll : Scroll α) (object : α)
    (project : α → Except (Fault α) (Point α)) : Except (Fault α) (List (Period α)) := do
  let samples ← s.times.mapM fun t =>
    return (t, Screen.contains s.wide (← project (scroll.position t object)))
  return Period.ofSamples s.duration none samples

end Sampler

end Storyboard
