/-
Storyboard documents: sprites and sound samples in the order in which they
were added, and the text they are exported as.

The text lists the sprites layer by layer, each with its timeline below it,
and then the samples.
-/
import Storyboard.Screen
import Storyboard.Timeline

namespace Storyboard

variable {α : Type}

-- ========================================================== sprites

/-- An image on a layer, held by a point of it, with its timeline. -/
structure Sprite (α : Type) where
  layer : Layer
  origin : Origin
  file : String
  position : Point α
  timeline : Timeline α
  deriving DecidableEq

namespace Sprite

/-- A sprite without entries; it must have a file. -/
def new (layer : Layer) (origin : Origin) (file : String) (position : Point α) :
    Except (Fault α) (Sprite α) :=
  if file.isEmpty then .error .emptySpritePath
  else .ok { layer, origin, file, position, timeline := .empty }

/-- A sprite that starts with commands; none of them may be at fault. -/
def ofDrafts [Scalar α] (layer : Layer) (origin : Origin) (file : String) (position : Point α)
    (drafts : List (Draft α)) : Except (Fault α) (Sprite α) := do
  let sprite ← new layer origin file position
  match sprite.timeline.extend drafts with
  | (timeline, none) => return { sprite with timeline }
  | (_, some f) => throw f

/-- The line that opens a sprite. -/
def heading [Scalar α] (s : Sprite α) : String :=
  ",".intercalate ["Sprite", s.layer.name, s.origin.name, "\"" ++ s.file ++ "\"",
    Scalar.text s.position.x, Scalar.text s.position.y]

/-- A sprite and its timeline. -/
def lines [Scalar α] (s : Sprite α) : List String := s.heading :: s.timeline.lines

end Sprite

-- ========================================================== samples

/-- A sound played once, at a volume in percent. -/
structure Sample (α : Type) where
  time : α
  layer : Layer
  file : String
  volume : Nat
  deriving DecidableEq

namespace Sample

/-- A sample must have a file, and no more than full volume. -/
def new (time : α) (layer : Layer) (file : String) (volume : Nat) :
    Except (Fault α) (Sample α) :=
  if file.isEmpty then .error .emptySamplePath
  else if 100 < volume then .error (.setting (.volume volume))
  else .ok { time, layer, file, volume }

/-- The line of a sample. -/
def line [Scalar α] (s : Sample α) : String :=
  ",".intercalate ["Sample", Scalar.text s.time, toString s.layer.index,
    "\"" ++ s.file ++ "\"", toString s.volume]

end Sample

-- ======================================================== documents

/-- Sprites and samples in the order in which they were added. A sprite is
known by its place among the sprites. -/
structure Document (α : Type) where
  sprites : List (Sprite α)
  samples : List (Sample α)
  deriving DecidableEq

namespace Document

def empty : Document α := ⟨[], []⟩

def addSprite (d : Document α) (s : Sprite α) : Document α :=
  { d with sprites := d.sprites ++ [s] }

def addSample (d : Document α) (s : Sample α) : Document α :=
  { d with samples := d.samples ++ [s] }

/-- The index that the next sprite will have. -/
def size (d : Document α) : Nat := d.sprites.length

/-- Adds a sprite; the index that it has. -/
def add (s : Sprite α) : Edit α (Document α) Nat := do
  let d ← get
  set (d.addSprite s)
  return d.size

/-- Adds a sprite that is yet to be made. -/
def place (made : Except (Fault α) (Sprite α)) : Edit α (Document α) Nat := do
  add (← Edit.ofExcept made)

variable [Scalar α]

/-- Takes a step on the timeline of a sprite. -/
def perform (d : Document α) (index : Nat) (step : Step α) :
    Except (Fault α) (Document α) :=
  match d.sprites[index]? with
  | none => .error (.unknownSprite index)
  | some s => do
    let timeline ← s.timeline.perform step
    return { d with sprites := d.sprites.set index { s with timeline } }

/-- Adds commands to a sprite, up to the first one that is at fault. -/
def extend (index : Nat) (drafts : List (Draft α)) : Edit α (Document α) Unit := do
  let d ← get
  match d.sprites[index]? with
  | none => throw (.unknownSprite index)
  | some s =>
    let (timeline, fault) := s.timeline.extend drafts
    set { d with sprites := d.sprites.set index { s with timeline } }
    match fault with
    | none => pure ()
    | some f => throw f

/-- The heading of a layer and the lines of its sprites. -/
def layerLines (d : Document α) (l : Layer) : List String :=
  s!"//Storyboard Layer {l.index} ({l.name})" ::
    (d.sprites.filter (·.layer = l)).flatMap Sprite.lines

/-- The lines of the samples, under a heading if there are any. -/
def sampleLines (d : Document α) : List String :=
  if d.samples.isEmpty then [] else "//Storyboard Sound Samples" :: d.samples.map Sample.line

/-- The lines of a document. -/
def lines (d : Document α) : List String :=
  ["[Events]", "//Background and Video events"] ++ Layer.all.flatMap d.layerLines
    ++ d.sampleLines

/-- The exported text: every line is ended by a line feed. -/
def text (d : Document α) : String := String.join (d.lines.map (· ++ "\n"))

end Document

end Storyboard
