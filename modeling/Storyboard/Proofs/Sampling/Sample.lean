/-
What commands show at a time. The sample of a kind is the value of the command
of that kind in force; of compacted lines it is taken the same way, with the
starts of the lines. Where a sprite stands while it has not been moved is its
own position.
-/
import Storyboard.Document
import Storyboard.Proofs.Sampling.InForce

namespace Storyboard

/-- Nothing in place of the functions that rationals lack, for commands that move
evenly and do not ask for them. -/
abbrev Elementary.absent : Elementary Rat := ⟨0, id, id, id, id⟩

variable {α : Type} [Scalar α] [Elementary α]

/-- What a list of commands shows of a kind at a time. -/
def Event.sample (events : List (Event α)) (k : Kind) (t : α) : Option (Value α) :=
  (inForce Event.start t (events.filter (·.kind = k))).bind (·.valueAt t)

/-- What a list of lines shows of a kind at a time. -/
def Line.sample (lines : List (Line α)) (k : Kind) (t : α) : Option (Value α) :=
  (inForce Line.start t (lines.filter (·.kind = k))).bind (·.valueAt t)

namespace Sprite

/-- What the commands of a sprite show of a kind at a time. -/
def sample (s : Sprite α) (k : Kind) (t : α) : Option (Value α) :=
  Event.sample s.timeline.events k t

/-- The vertical moves of a sprite. -/
def moves (s : Sprite α) : List (Event α) := s.timeline.events.filter (·.kind = .moveY)

/-- The height at which a sprite is shown: where its vertical moves have taken
it, or its own position if none of them has started. -/
def heightAt (s : Sprite α) (t : α) : Option (Value α) :=
  match inForce Event.start t s.moves with
  | some e => e.valueAt t
  | none => some (.scalar s.position.y)

end Sprite

-- ================================================== ends of a command

namespace Event

/-- Up to its start a command shows its first value. -/
theorem valueAt_of_le_start {e : Event α} {v w : Value α} {t : α}
    (hv : e.values = some (v, w)) (ht : t ≤ e.start) : e.valueAt t = some v := by
  simp only [valueAt, valueAlong, hv, Option.map_some, if_pos ht]

/-- From its end on it shows its last one. -/
theorem valueAt_of_stop_le {e : Event α} {v w : Value α} {t : α}
    (hv : e.values = some (v, w)) (hstart : ¬t ≤ e.start) (ht : e.stop ≤ t) :
    e.valueAt t = some w := by
  simp only [valueAt, valueAlong, hv, Option.map_some, if_neg hstart, if_pos ht]

/-- Under way a command that moves evenly is as far along as its time. -/
theorem valueAt_of_between {e : Event α} {v w : Value α} {t : α}
    (hv : e.values = some (v, w)) (hlinear : e.easing = .linear) (hstart : ¬t ≤ e.start)
    (ht : ¬e.stop ≤ t) : e.valueAt t = some (v.lerp w ((t - e.start) / e.duration)) := by
  simp only [valueAt, valueAlong, hv, Option.map_some, if_neg hstart, if_neg ht, hlinear]
  rfl

/-- A command that keeps one value and takes no time shows that value. -/
theorem valueAt_of_instant {e : Event α} {v : Value α} {t : α} (hv : e.values = some (v, v))
    (hinstant : e.stop = e.start) (ht : e.start ≤ t) : e.valueAt t = some v := by
  by_cases hstart : t ≤ e.start
  · exact valueAt_of_le_start hv hstart
  · exact valueAt_of_stop_le hv hstart (hinstant ▸ ht)

end Event

end Storyboard
