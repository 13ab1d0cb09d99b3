/-
Gears: the field of lanes that notes scroll down, laid out from left to right,
and the sprites it is drawn with.
-/
import Storyboard.Document

namespace Storyboard

/-- The description of a gear. -/
structure GearConfig (α : Type) where
  /-- The left edge of the first lane. -/
  left : α
  laneWidths : List α
  noteImages : List String
  /-- The width of the note images, from which notes are scaled. -/
  noteImageWidth : α
  backgroundImage : Option String
  /-- The size of the background image. -/
  backgroundSize : Point α
  judgelineImage : String
  /-- The height at which notes are hit. -/
  judgelineY : α
  deriving DecidableEq

/-- A lane: its left edge, its width, and the image of its notes. -/
structure Lane (α : Type) where
  left : α
  width : α
  image : String
  deriving DecidableEq

/-- A gear that has been checked and laid out. -/
structure Gear (α : Type) where
  config : GearConfig α
  lanes : List (Lane α)
  deriving DecidableEq

variable {α : Type} [Scalar α]

namespace Lane

/-- Lanes side by side. -/
def layOut (left : α) : (widths : List α) → (images : List String) → List (Lane α)
  | width :: widths, image :: images =>
    { left, width, image } :: layOut (left + width) widths images
  | _, _ => []

end Lane

namespace Gear

/-- The height that the background is stretched to. -/
def backgroundHeight : α := 640

/-- Where notes wait, above the screen. -/
def spawnY : α := -100

/-- A gear needs lanes, an image for the notes of each, and a width to scale
them from. -/
def new (config : GearConfig α) : Except (Fault α) (Gear α) :=
  if config.laneWidths.isEmpty then .error (.setting .noLanes)
  else if config.noteImages.length ≠ config.laneWidths.length then
    .error (.setting (.images config.laneWidths.length config.noteImages.length))
  else if ¬0 < config.noteImageWidth then .error (.setting .imageWidth)
  else .ok { config, lanes := Lane.layOut config.left config.laneWidths config.noteImages }

/-- How many lanes there are. -/
def laneCount (g : Gear α) : Nat := g.lanes.length

/-- The lane with a number. -/
def lane (g : Gear α) (index : Nat) : Except (Fault α) (Lane α) :=
  match g.lanes[index]? with
  | some l => .ok l
  | none => .error (.laneOutOfRange index g.laneCount)

/-- The width of all lanes together. -/
def width (g : Gear α) : α :=
  match g.lanes.map Lane.width with
  | [] => 0
  | w :: ws => ws.foldl (· + ·) w

-- ========================================================== sprites

/-- Visible from the start. -/
def shown : Draft α := .fade .linear 0 0 1 1

/-- Scaled from the start. -/
def scaled (scale : Point α) : Draft α := .vectorScale .linear 0 0 scale scale

/-- The background, stretched over all lanes, unless there is no image or the
image has no extent. -/
def background? (g : Gear α) : Except (Fault α) (Option (Sprite α)) :=
  match g.config.backgroundImage with
  | none => .ok none
  | some image =>
    let size := g.config.backgroundSize
    if size.x == 0 || size.y == 0 then .ok none
    else some <$> Sprite.ofDrafts .background .topLeft image ⟨g.config.left, 0⟩
      [shown, scaled ⟨g.width / size.x, backgroundHeight / size.y⟩]

/-- The line at which notes are hit. -/
def judgeline (g : Gear α) : Except (Fault α) (Sprite α) :=
  Sprite.ofDrafts .background .centreLeft g.config.judgelineImage
    ⟨g.config.left, g.config.judgelineY⟩ [shown]

/-- A note of a lane, as wide as the lane. -/
def note (g : Gear α) (l : Lane α) : Except (Fault α) (Sprite α) :=
  Sprite.ofDrafts .foreground .centreLeft l.image ⟨l.left, spawnY⟩
    [scaled ⟨l.width / g.config.noteImageWidth, 1⟩]

end Gear

-- ======================================================== documents

namespace Document

/-- Adds the background of a gear, if it has one. -/
def addBackground (g : Gear α) : Edit α (Document α) (Option Nat) := do
  match ← Edit.ofExcept g.background? with
  | none => return none
  | some sprite => return some (← add sprite)

/-- Adds the line at which notes are hit. -/
def addJudgeline (g : Gear α) : Edit α (Document α) Nat := place g.judgeline

/-- Adds the background and then the line. -/
def addGear (g : Gear α) : Edit α (Document α) Unit := do
  let _ ← addBackground g
  let _ ← addJudgeline g

/-- Adds a note of a lane. -/
def addNote (g : Gear α) (lane : Nat) : Edit α (Document α) Nat := do
  let l ← Edit.ofExcept (g.lane lane)
  place (g.note l)

end Document

end Storyboard
