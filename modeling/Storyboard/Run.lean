/-
Runs: commands of one kind, curve and length that follow each other, each
starting from the value that the last one reached. A run is written as its
first step with all later values appended.
-/
import Storyboard.Event

namespace Storyboard

/-- Steps of one length, from each value to the next. -/
structure Run (α : Type) where
  kind : Kind
  easing : Easing
  start : α
  step : α
  values : List (Value α)
  deriving DecidableEq

namespace Run

variable {α : Type}

/-- How many steps there are. -/
def steps (r : Run α) : Nat := r.values.length - 1

variable [Scalar α]

/-- When step `i` starts. -/
def startOf (r : Run α) (i : Nat) : α := r.start + r.step * Scalar.ofNat i

/-- When the last step ends. -/
def stop (r : Run α) : α := r.startOf r.steps

/-- One draft for each step. -/
def drafts (r : Run α) : List (Draft α) :=
  (r.values.zip r.values.tail).mapIdx fun i (v, w) =>
    .change r.kind r.easing (r.startOf i) (some (r.startOf i + r.step)) (some v) (some w)

/-- The steps as commands of their own, or the first fault among them. -/
def expand (r : Run α) : Except (Fault α) (List (Event α)) := r.drafts.mapM Draft.check

/-- The number of the last step. -/
def lastStep (r : Run α) : Except (Fault α) Nat :=
  if r.steps = 0 then .error .noSteps else .ok (r.steps - 1)

/-- The value with a number. -/
def value (r : Run α) (i : Nat) : Except (Fault α) (Value α) :=
  match r.values[i]? with
  | some v => .ok v
  | none => .error (.unknownValue i)

/-- The part of the way that a step has covered when so many steps of the run
have passed. -/
def valueOn (r : Run α) (curve : α → α) (elapsed : α) (i : Nat) :
    Except (Fault α) (Value α) := do
  let v ← r.value i
  let w ← r.value (i + 1)
  return v.lerp w (curve (elapsed - Scalar.ofNat i))

/-- The part of the way that the step under way at a time has covered. -/
def underWay (r : Run α) (curve : α → α) (t : α) : Except (Fault α) (Value α) := do
  let elapsed := (t - r.start) / r.step
  r.valueOn curve elapsed (min (Scalar.reading elapsed).whole (← r.lastStep))

/-- The value at a time, along a given curve: the first value until the start,
the last one from the end on, and between them that of the step under way. A
run without values has none. -/
def evaluateAlong (r : Run α) (curve : α → α) (t : α) : Except (Fault α) (Option (Value α)) :=
  match r.values.head?, r.values.getLast? with
  | some first, some last =>
    if t ≤ r.start then .ok (some first)
    else if r.stop ≤ t ∨ r.step ≤ 0 then .ok (some last)
    else some <$> r.underWay curve t
  | _, _ => .ok none

/-- The value at a time, or the fault of a run that reaches for a step or a
value which it does not have. -/
def evaluate [Elementary α] (r : Run α) (t : α) : Except (Fault α) (Option (Value α)) :=
  r.evaluateAlong r.easing.apply t

/-- The value at a time, along a given curve, if the run has one there. -/
def valueAlong (r : Run α) (curve : α → α) (t : α) : Option (Value α) :=
  (r.evaluateAlong curve t).toOption.join

/-- The value at a time, if the run has one there. -/
def valueAt [Elementary α] (r : Run α) (t : α) : Option (Value α) :=
  r.valueAlong r.easing.apply t

/-- The command line of a run. -/
def text (r : Run α) : String :=
  commandLine r.kind r.easing r.start (r.start + r.step)
    (Scalar.listText (r.values.flatMap Value.components))

end Run

end Storyboard
