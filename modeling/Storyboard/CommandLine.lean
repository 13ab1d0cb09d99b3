/-
The command line: reads a beatmap and a gear, writes the storyboard, and says
what it has written.

What the words of a command line ask for and what a file holds is for parsers
to say, which are given.
-/
import Storyboard.Gear.Config
import Storyboard.Generation

namespace Storyboard

variable {α : Type}

/-- Where things are and how a chart is animated. Without a base tempo, that
of the chart is taken. -/
structure Options (α : Type) where
  chart : String
  gear : String
  output : String
  framerate : Option α
  baseBpm : Option α
  beatHeight : Option α
  /-- Whether notes are only shown on the narrow screen. -/
  narrow : Bool
  deriving DecidableEq

/-- The parsers that a program is given. -/
structure Parsers (α : Type) where
  options : List String → Except String (Options α)
  beatmap : String → Option (Beatmap α)
  json : String → Option (Json α)

namespace Options

/-- The settings that options ask for, at a base tempo. -/
def settings [Scalar α] (options : Options α) (baseBpm : α) : Settings α where
  framerate := options.framerate.getD 30
  baseBpm := baseBpm
  beatHeight := options.beatHeight.getD 100
  wide := !options.narrow

/-- The storyboard that files ask for, or a message. -/
def generate (options : Options Float) (parsers : Parsers Float) (chart gear : String) :
    Except String (Generation Float) := do
  let beatmap ← (parsers.beatmap chart).elim (.error "Failed to parse .osu file") .ok
  let gear ← ((GearConfig.read parsers.json gear).bind Gear.new).mapError Fault.message
  match options.baseBpm.or beatmap.firstBpm? with
  | none => throw "Chart has no timing points, pass --base-bpm"
  | some baseBpm =>
    (Generation.run beatmap gear (options.settings baseBpm)).mapError Fault.message

/-- What has been written. -/
def summary (options : Options Float) (g : Generation Float) : String :=
  "\n".intercalate [
    "=== Summary ===",
    s!"Notes: {g.chart.noteCount}",
    s!"Note sprites: {g.noteSprites}",
    s!"Total sprites: {g.stage.document.size}",
    "Output: " ++ options.output]

end Options

/-- Does what the words of a command line ask for. -/
def Parsers.run (parsers : Parsers Float) (words : List String) : IO UInt32 := do
  match parsers.options words with
  | .error message => do
    IO.eprintln message
    return 2
  | .ok options =>
    let chart ← IO.FS.readFile options.chart
    let gear ← IO.FS.readFile options.gear
    match options.generate parsers chart gear with
    | .error message => do
      IO.eprintln ("Error: " ++ message)
      return 1
    | .ok g => do
      IO.FS.writeFile options.output g.stage.document.text
      IO.println (options.summary g)
      return 0

end Storyboard
