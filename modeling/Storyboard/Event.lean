/-
Timed commands of a sprite.

A `Draft` is a command as it is asked for: sides may be missing, and it may
not make sense. Checking it fills the missing sides in and gives an `Event`,
or says what is wrong. An event holds its first value until it starts and its
last value once it has ended; between, it moves along its curve.
-/
import Storyboard.Easing
import Storyboard.Fault
import Storyboard.Value

namespace Storyboard

/-- A command that has been checked. Flags have no values, all other kinds
have one for each end. -/
structure Event (α : Type) where
  kind : Kind
  easing : Easing
  start : α
  stop : α
  values : Option (Value α × Value α)
  deriving DecidableEq

/-- A command as it is asked for. -/
inductive Draft (α : Type) where
  | change (kind : Kind) (easing : Easing) (start : α) (stop : Option α)
      (first last : Option (Value α))
  | flag (kind : Kind) (start : α) (stop : Option α)
  deriving DecidableEq

variable {α : Type}

namespace Draft

/-- A change of one number. -/
def number (kind : Kind) (easing : Easing) (start stop a b : α) : Draft α :=
  change kind easing start (some stop) (some (.scalar a)) (some (.scalar b))

/-- A change of a pair of numbers. -/
def pair (kind : Kind) (easing : Easing) (start stop : α) (p q : Point α) : Draft α :=
  change kind easing start (some stop) (some (.vector p.x p.y)) (some (.vector q.x q.y))

def fade : Easing → α → α → α → α → Draft α := number .fade

def moveX : Easing → α → α → α → α → Draft α := number .moveX

def moveY : Easing → α → α → α → α → Draft α := number .moveY

def scale : Easing → α → α → α → α → Draft α := number .scale

def rotate : Easing → α → α → α → α → Draft α := number .rotate

def move : Easing → α → α → Point α → Point α → Draft α := pair .move

def vectorScale : Easing → α → α → Point α → Point α → Draft α := pair .vectorScale

/-- A change of colour. -/
def color (easing : Easing) (start stop : α) (r g b r' g' b' : α) : Draft α :=
  change .color easing start (some stop) (some (.color r g b)) (some (.color r' g' b'))

end Draft

-- ========================================================= checking

namespace Event

/-- The values of a command: none for a flag; otherwise a missing side is
taken from the other one, and both must have the components of the kind. -/
def sides (kind : Kind) (first last : Option (Value α)) :
    Except (Fault α) (Option (Value α × Value α)) :=
  if kind.isFlag then
    match first.or last with
    | some v => .error (.valueArity kind 0 v.arity)
    | none => .ok none
  else
    match first.or last, last.or first with
    | some v, some w =>
      if v.arity ≠ kind.arity then .error (.valueArity kind kind.arity v.arity)
      else if w.arity ≠ kind.arity then .error (.valueArity kind kind.arity w.arity)
      else .ok (some (v, w))
    | _, _ => .error (.missingValue kind)

variable [Scalar α]

/-- A command without an end takes no time. -/
def check (kind : Kind) (easing : Easing) (start : α) (stop : Option α)
    (first last : Option (Value α)) : Except (Fault α) (Event α) := do
  let stop := stop.getD start
  if stop < start then throw (.invertedTime start stop)
  let values ← sides kind first last
  return { kind, easing, start, stop, values }

end Event

variable [Scalar α]

namespace Draft

/-- The command that is asked for, or what is wrong with it. -/
def check : Draft α → Except (Fault α) (Event α)
  | change kind easing start stop first last => Event.check kind easing start stop first last
  | flag kind start stop =>
    if kind.isFlag then Event.check kind .linear start stop none none
    else .error (.notAFlag kind)

/-- The events of drafts, up to the first one that is at fault. -/
def checkAll : List (Draft α) → List (Event α) × Option (Fault α)
  | [] => ([], none)
  | d :: ds =>
    match d.check with
    | .error f => ([], some f)
    | .ok e => let (es, f) := checkAll ds; (e :: es, f)

end Draft

namespace Event

-- ========================================================= in time

/-- How long the command takes. -/
def duration (e : Event α) : α := e.stop - e.start

/-- Whether a time lies in the command's span, ends included. -/
def covers (e : Event α) (t : α) : Bool := e.start ≤ t && t ≤ e.stop

/-- The value at a time, along a given curve. -/
def valueAlong (e : Event α) (curve : α → α) (t : α) : Option (Value α) :=
  e.values.map fun (v, w) =>
    if t ≤ e.start then v
    else if e.stop ≤ t then w
    else v.lerp w (curve ((t - e.start) / e.duration))

/-- The value at a time. -/
def valueAt [Elementary α] (e : Event α) (t : α) : Option (Value α) :=
  e.valueAlong e.easing.apply t

-- ====================================================== in writing

/-- What stands at the end of a command line: the letter of a flag, or the
components of both values, or of one if they are equal. -/
def payload (e : Event α) : String :=
  match e.values with
  | none => e.kind.letter?.getD "A"
  | some (v, w) =>
    Scalar.listText (if v == w then v.components else v.components ++ w.components)

end Event

/-- A command line: code, curve, span and payload. -/
def commandLine (kind : Kind) (easing : Easing) (start stop : α) (payload : String) : String :=
  ",".intercalate [kind.code, toString easing.number, Scalar.spanText start stop, payload]

/-- The command line of an event. -/
def Event.text (e : Event α) : String := commandLine e.kind e.easing e.start e.stop e.payload

end Storyboard
