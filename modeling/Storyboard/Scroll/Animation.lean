/-
Animations: the notes of a chart, scrolling down the lanes of a gear.

Each lane has a pool of note sprites. A note is given a sprite for each period
during which it is on screen, and the sprite is moved from frame to frame, on
the axes on which the note has moved. The first move ends at the first frame
of the period; it starts one frame earlier. When all lanes are done, the
sprites are faded in and out.
-/
import Storyboard.Beatmap.Tempo
import Storyboard.Gear.Layout
import Storyboard.Scroll.Pool

namespace Storyboard

/-- How a chart is sampled and scaled. -/
structure Settings (α : Type) where
  framerate : α
  /-- The tempo at which velocity 1 makes a beat `beatHeight` pixels high. -/
  baseBpm : α
  beatHeight : α
  wide : Bool
  deriving DecidableEq

/-- What the notes of a chart are animated with. -/
structure Animation (α : Type) where
  gear : Gear α
  scroll : Scroll α
  sampler : Sampler α
  pixelsPerBeat : α

/-- What an animation works on: a pool for each lane, and the document. -/
structure Stage (α : Type) where
  pools : List (Pool α)
  document : Document α
  deriving DecidableEq

variable {α : Type} [Scalar α]

namespace Settings

/-- Settings for what is not said otherwise. -/
def standard : Settings α := { framerate := 30, baseBpm := 120, beatHeight := 100, wide := true }

end Settings

namespace Animation

/-- How long the sampling goes on after the last note, in milliseconds. -/
def tail : α := 3000

/-- An animation of so many milliseconds. -/
def new (gear : Gear α) (scroll : Scroll α) (settings : Settings α) (duration : α) :
    Except (Fault α) (Animation α) := do
  if ¬0 < settings.baseBpm then throw (.setting (.baseTempo settings.baseBpm))
  let sampler ← Sampler.new settings.framerate duration settings.wide
  return { gear, scroll, sampler,
           pixelsPerBeat := Storyboard.pixelsPerBeat settings.beatHeight settings.baseBpm }

/-- An animation that is long enough for a chart. -/
def forChart (gear : Gear α) (scroll : Scroll α) (settings : Settings α) (chart : Chart α) :
    Except (Fault α) (Animation α) :=
  if gear.laneCount < chart.laneCount then
    .error (.laneOutOfRange (chart.laneCount - 1) gear.laneCount)
  else new gear scroll settings (chart.lastTime + tail)

/-- A pool for each lane and a document, all of them empty. -/
def emptyStage (a : Animation α) : Stage α :=
  { pools := List.replicate a.gear.laneCount (Pool.empty true), document := .empty }

-- ========================================================= positions

/-- The point of a lane at a scroll position. -/
def pointIn (a : Animation α) (l : Lane α) (position : α) : Point α :=
  ⟨l.left, position * a.pixelsPerBeat + a.gear.config.judgelineY⟩

/-- The point of a lane, by its number, at a scroll position. -/
def point (a : Animation α) (lane : Nat) (position : α) : Except (Fault α) (Point α) :=
  (a.gear.lane lane).map fun l => a.pointIn l position

/-- Where a note hit at `object` is at a time. -/
def notePoint (a : Animation α) (lane : Nat) (time object : α) : Except (Fault α) (Point α) :=
  a.point lane (a.scroll.position time object)

/-- When a note is on screen. -/
def visible (a : Animation α) (lane : Nat) (object : α) :
    Except (Fault α) (List (Period α)) :=
  a.sampler.periods a.scroll object (a.point lane)

-- ============================================================ motion

/-- The moves that end at the given frames, of something that was at `place`
at `time`. -/
def moves (pointAt : α → Point α) (time : α) (place : Point α) :
    (frames : List α) → List (Draft α)
  | [] => []
  | t :: ts =>
    let next := pointAt t
    (if next.y == place.y then [] else [Draft.moveY .linear time t place.y next.y])
      ++ (if next.x == place.x then [] else [Draft.moveX .linear time t place.x next.x])
      ++ moves pointAt t next ts

/-- The moves of a note during a period. -/
def motion (a : Animation α) (l : Lane α) (object : α) (p : Period α) : List (Draft α) :=
  let pointAt := fun t => a.pointIn l (a.scroll.position t object)
  let before := p.start - a.sampler.interval
  moves pointAt before (pointAt before) (frames p.start p.stop a.sampler.interval)

end Animation

-- ======================================================== generation

namespace Stage

/-- Does something to the document. -/
def onDocument (edit : Edit α (Document α) Unit) : Edit α (Stage α) Unit :=
  Edit.within Stage.document (fun s document => { s with document }) edit

/-- Asks the pool of a lane for a sprite, which is made if none is free. -/
def acquire (lane : Nat) (p : Period α) (spawn : Except (Fault α) (Sprite α)) :
    Edit α (Stage α) Nat := do
  let s ← get
  match s.pools[lane]? with
  | none => throw (.laneOutOfRange lane s.pools.length)
  | some pool =>
    Edit.within (fun s => ⟨pool, s.document⟩)
      (fun s site => { pools := s.pools.set lane site.pool, document := site.document })
      (Pool.acquire p (Document.place spawn))

end Stage

namespace Animation

/-- Shows a note during a period. -/
def showNote (a : Animation α) (lane : Nat) (l : Lane α) (object : α) (p : Period α) :
    Edit α (Stage α) Unit := do
  let sprite ← Stage.acquire lane p (a.gear.note l)
  Stage.onDocument (Document.extend sprite (a.motion l object p))

/-- Animates the notes of a lane. -/
def generateLane (a : Animation α) (lane : Nat) (notes : List α) :
    Edit α (Stage α) Unit := do
  let l ← Edit.ofExcept (a.gear.lane lane)
  notes.forM fun object => do
    let periods ← Edit.ofExcept (a.visible lane object)
    periods.forM fun p => a.showNote lane l object p

/-- Draws the gear, animates the notes of every lane, and fades the sprites of
all pools. -/
def generate (a : Animation α) (chart : Chart α) : Edit α (Stage α) Unit := do
  Stage.onDocument (Document.addGear a.gear)
  (List.range chart.laneCount).forM fun lane => do
    let notes ← Edit.ofExcept (chart.lane lane)
    a.generateLane lane notes
  let s ← get
  s.pools.forM fun pool => Stage.onDocument pool.applyFades

end Animation

end Storyboard
