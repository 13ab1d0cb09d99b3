/-
Beatmaps, as far as a scrolling storyboard needs them, and the note times of
each lane.

The objects of a beatmap lie across a playfield that is divided evenly into
lanes. An object goes to the lane it lies in, one beside the playfield to the
lane at that side; spinners lie in no lane.
-/
import Storyboard.Fault

namespace Storyboard

/-- An object to be hit. Spinners have no position. -/
inductive HitObject (α : Type) where
  | circle (x time : α)
  | slider (x time : α)
  | hold (x time duration : α)
  | spinner (time : α)
  deriving DecidableEq

/-- From a time on, a beat has a length. -/
structure TimingPoint (α : Type) where
  time : α
  beatLength : α
  deriving DecidableEq

/-- From a time on, sliders have a velocity. -/
structure DifficultyPoint (α : Type) where
  time : α
  sliderVelocity : α
  deriving DecidableEq

/-- A beatmap, in the order of its file. The circle size is the number of
lanes before rounding. -/
structure Beatmap (α : Type) where
  circleSize : α
  objects : List (HitObject α)
  timing : List (TimingPoint α)
  difficulty : List (DifficultyPoint α)
  deriving DecidableEq

variable {α : Type}

namespace HitObject

/-- Where and when a note is hit, unless the object is none. -/
def note? : HitObject α → Option (α × α)
  | circle x time => some (x, time)
  | slider x time => some (x, time)
  | hold x time _ => some (x, time)
  | spinner _ => none

/-- When a note is over. The length of a slider is not known here. -/
def stop? [Scalar α] : HitObject α → Option α
  | circle _ time => some time
  | slider _ time => some time
  | hold _ time duration => some (time + duration)
  | spinner _ => none

end HitObject

/-- The notes of a chart: the times of each lane in order, and when the last
note is over. -/
structure Chart (α : Type) where
  lanes : List (List α)
  lastTime : α
  deriving DecidableEq

variable [Scalar α]

namespace Chart

/-- The width of the playfield. -/
def playfieldWidth : α := 512

/-- The lane, of so many, at a position of the playfield. -/
def laneAt (x : α) (lanes : Nat) : Nat :=
  min (Scalar.reading (x * Scalar.ofNat lanes / playfieldWidth)).whole (lanes - 1)

/-- Times in order. -/
def inOrder (times : List α) : List α := times.mergeSort Scalar.precedes

/-- The chart of note times by lane. -/
def ofLanes (lanes : List (List α)) : Chart α :=
  let lanes := lanes.map inOrder
  { lanes, lastTime := Scalar.latest 0 (lanes.filterMap List.getLast?) }

/-- How many lanes a beatmap has. -/
def laneCountOf (b : Beatmap α) : Nat := (Scalar.reading b.circleSize).nearest.toNat

/-- The times of the notes in each lane, in the order of the file. -/
def timesByLane (lanes : Nat) (objects : List (HitObject α)) : List (List α) :=
  let notes := objects.filterMap HitObject.note?
  (List.range lanes).map fun lane =>
    (notes.filter fun (x, _) => laneAt x lanes = lane).map Prod.snd

/-- The chart of a beatmap. -/
def ofBeatmap (b : Beatmap α) : Except (Fault α) (Chart α) :=
  let lanes := laneCountOf b
  if lanes = 0 then .error (.setting (.circleSize b.circleSize))
  else
    let chart := ofLanes (timesByLane lanes b.objects)
    let last := Scalar.latest 0 (b.objects.filterMap HitObject.stop?)
    .ok { chart with lastTime := Scalar.later chart.lastTime last }

/-- How many lanes there are. -/
def laneCount (c : Chart α) : Nat := c.lanes.length

/-- The times of a lane. -/
def lane (c : Chart α) (index : Nat) : Except (Fault α) (List α) :=
  match c.lanes[index]? with
  | some times => .ok times
  | none => .error (.laneOutOfRange index c.laneCount)

/-- How many notes there are. -/
def noteCount (c : Chart α) : Nat := c.lanes.foldl (fun n times => n + times.length) 0

end Chart

end Storyboard
