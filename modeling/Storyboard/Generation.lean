/-
Generating the storyboard of a chart: from a beatmap and a gear, the whole
document.
-/
import Storyboard.Scroll.Animation

namespace Storyboard

variable {α : Type} [Scalar α]

/-- What generating a storyboard gives. -/
structure Generation (α : Type) where
  chart : Chart α
  stage : Stage α

namespace Generation

/-- How many sprites the notes have been given. -/
def noteSprites (g : Generation α) : Nat :=
  g.stage.pools.foldl (fun n pool => n + pool.objects.length) 0

/-- Animates the notes of a beatmap on an empty document. The base tempo of
the settings is also the one that velocities are relative to. -/
def run (beatmap : Beatmap α) (gear : Gear α) (settings : Settings α) :
    Except (Fault α) (Generation α) := do
  let chart ← Chart.ofBeatmap beatmap
  let scroll := Scroll.ofVelocities (beatmap.velocities settings.baseBpm)
  let animation ← Animation.forChart gear scroll settings chart
  match (animation.generate chart).apply animation.emptyStage with
  | (stage, none) => return { chart, stage }
  | (_, some fault) => throw fault

end Generation

end Storyboard
