/-
The tempo of a beatmap and the scroll velocities that follow from it.

The velocity at a time is the tempo there, as a multiple of a base tempo,
times the slider velocity there. A timing point sets the tempo and puts the
slider velocity back to 1; a difficulty point sets the slider velocity, also
at the time of a timing point.
-/
import Storyboard.Beatmap.Lanes
import Storyboard.Scroll.Displacement

namespace Storyboard

variable {α : Type}

/-- A point of a beatmap: a change of the tempo, or of the slider velocity. -/
inductive Change (α : Type) where
  | tempo (time bpm : α)
  | multiplier (time factor : α)
  deriving DecidableEq

/-- When a change is made. -/
def Change.time : Change α → α
  | tempo time _ => time
  | multiplier time _ => time

/-- Beats per minute, and the slider velocity. -/
structure Tempo (α : Type) where
  bpm : α
  multiplier : α
  deriving DecidableEq

variable [Scalar α]

/-- The tempo of a beat length, in beats per minute. -/
def bpmOf (beatLength : α) : α := 60000 / beatLength

namespace Change

/-- The changes of a beatmap. Changes of the tempo stand first, so that they
stay before other changes of the same time. -/
def all (b : Beatmap α) : List (Change α) :=
  (b.timing.filter fun p => 0 < p.beatLength).map (fun p => tempo p.time (bpmOf p.beatLength))
    ++ b.difficulty.map fun p => multiplier p.time p.sliderVelocity

/-- Changes in order of time. -/
def inOrder (changes : List (Change α)) : List (Change α) :=
  changes.mergeSort fun c d => Scalar.precedes c.time d.time

end Change

namespace Tempo

/-- The tempo after a change. -/
def after (t : Tempo α) : Change α → Tempo α
  | .tempo _ bpm => ⟨bpm, 1⟩
  | .multiplier _ factor => { t with multiplier := factor }

/-- The velocity at a tempo, relative to a base. -/
def velocity (base : α) (t : Tempo α) : α := t.bpm / base * t.multiplier

/-- The velocity after each change. -/
def velocities (base : α) (t : Tempo α) : List (Change α) → List (Velocity α)
  | [] => []
  | c :: cs => ⟨c.time, (t.after c).velocity base⟩ :: velocities base (t.after c) cs

end Tempo

/-- Of neighbours with equal times, the time of the first and the velocity of
the last. -/
def Velocity.merge : List (Velocity α) → List (Velocity α)
  | [] => []
  | v :: vs =>
    match merge vs with
    | [] => [v]
    | w :: ws => if v.time == w.time then { w with time := v.time } :: ws else v :: w :: ws

namespace Beatmap

/-- The tempo of the earliest timing point, of several the one listed first;
none if its beats have no positive length. -/
def firstBpm? (b : Beatmap α) : Option α := do
  let p ← (b.timing.mergeSort fun p q => Scalar.precedes p.time q.time).head?
  if 0 < p.beatLength then some (bpmOf p.beatLength) else none

/-- The scroll velocities of a beatmap, in order of time. -/
def velocities (b : Beatmap α) (base : α) : List (Velocity α) :=
  Velocity.merge (Tempo.velocities base ⟨base, 1⟩ (Change.inOrder (Change.all b)))

end Beatmap

end Storyboard
