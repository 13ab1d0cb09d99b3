/-
Why a request is refused. Each cause carries what its message needs; the
wording of all messages is at the end.

`Edit` is an operation on a state that a fault can stop midway: what had been
done before the fault stays done.
-/
import Storyboard.Decimal.Shortest
import Storyboard.Kind

namespace Storyboard

/-- A setting that makes no sense. -/
inductive BadSetting (α : Type) where
  /-- A loop that runs no times. -/
  | noRepeats
  /-- A sample louder than full volume. -/
  | volume (percent : Nat)
  /-- A gear without lanes. -/
  | noLanes
  /-- A gear whose lanes and note images do not pair up. -/
  | images (lanes files : Nat)
  /-- A note image without a width to scale from. -/
  | imageWidth
  /-- Text that does not describe a gear. -/
  | unreadableGear
  /-- A frame rate that gives no frame interval. -/
  | framerate (rate : α)
  /-- A duration that cannot be sampled. -/
  | duration (length : α)
  /-- A tempo that velocities cannot be relative to. -/
  | baseTempo (bpm : α)
  /-- A circle size, of single precision, that rounds to no lanes. -/
  | circleSize (size : α)
  deriving DecidableEq

/-- Why a request is refused. -/
inductive Fault (α : Type) where
  | missingValue (kind : Kind)
  | valueArity (kind : Kind) (expected found : Nat)
  | invertedTime (start stop : α)
  | nestedLoop
  | invalidPeriod (start stop : α)
  | laneOutOfRange (lane lanes : Nat)
  | emptySpritePath
  | emptySamplePath
  | notAFlag (kind : Kind)
  | setting (cause : BadSetting α)
  /-- A pool asked for an object that it does not have. -/
  | unknownObject (index : Nat)
  /-- A document asked for a sprite that it does not have. -/
  | unknownSprite (index : Nat)
  /-- A run asked for its last step that has no steps. -/
  | noSteps
  /-- A run asked for a value that it does not have. -/
  | unknownValue (index : Nat)
  deriving DecidableEq

/-- An operation on a state that a fault can stop midway. -/
abbrev Edit (α σ : Type) := ExceptT (Fault α) (StateM σ)

namespace Edit

variable {α σ : Type}

/-- Goes on with what `outcome` holds, or stops. -/
def ofExcept {β : Type} (outcome : Except (Fault α) β) : Edit α σ β :=
  match outcome with
  | .ok b => pure b
  | .error f => throw f

/-- Edits a part of a state. What is left of the part is put back, also after a fault. -/
def within {τ β : Type} (part : σ → τ) (put : σ → τ → σ) (edit : Edit α τ β) : Edit α σ β := do
  let s ← get
  let (outcome, t) := edit.run.run (part s)
  set (put s t)
  ofExcept outcome

/-- What is left of a state, and the fault that stopped the edit, if any. -/
def apply (edit : Edit α σ Unit) (s : σ) : σ × Option (Fault α) :=
  match edit.run.run s with
  | (.ok (), s) => (s, none)
  | (.error f, s) => (s, some f)

end Edit

-- ======================================================== messages

/-- What is wrong with a setting. -/
def BadSetting.message : BadSetting Float → String
  | noRepeats => "loop repeat count must be at least 1"
  | volume percent => s!"sample volume must be at most 100, got {percent}"
  | noLanes => "gear needs at least one lane"
  | images lanes files => s!"gear has {lanes} lanes but {files} note images"
  | imageWidth => "note image width must be positive"
  | unreadableGear => "invalid gear config"
  | framerate rate =>
    "framerate must be positive and finite, got " ++ Binary.fullText rate
  | duration length => "duration must be finite, got " ++ Binary.fullText length
  | baseTempo bpm => "base BPM must be positive, got " ++ Binary.fullText bpm
  | circleSize size => "circle size " ++ Binary.singleText size ++ " gives no lanes"

/-- The message for a fault. -/
def Fault.message : Fault Float → String
  | missingValue kind => kind.name ++ " command needs a value on at least one side"
  | valueArity kind expected found =>
    kind.name ++ s!" command takes {expected} value(s), got {found}"
  | invertedTime start stop =>
    "command ends before it starts (" ++ Binary.fullText start ++ " > "
      ++ Binary.fullText stop ++ ")"
  | nestedLoop => "loops cannot be nested inside other loops"
  | invalidPeriod start stop =>
    "invalid active period [" ++ Binary.fullText start ++ ", " ++ Binary.fullText stop ++ ")"
  | laneOutOfRange lane lanes => s!"lane {lane} is out of range (gear has {lanes} lanes)"
  | emptySpritePath => "the sprite's file can't be empty"
  | emptySamplePath => "the sample's file can't be empty"
  | notAFlag kind => kind.name ++ " is not a flag command"
  | setting cause => "configuration error: " ++ cause.message
  | unknownObject index => s!"the pool has no object {index}"
  | unknownSprite index => s!"the document has no sprite {index}"
  | noSteps => "the run has no steps"
  | unknownValue index => s!"the run has no value {index}"

end Storyboard
