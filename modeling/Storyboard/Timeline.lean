/-
Timelines: the commands of a sprite and its loops, in the order in which they
were added.

A timeline is built from steps. A step adds one entry or, at fault, nothing. A
loop repeats a list of commands whose times count from the loop's start; its
body is built from steps too, but loops do not nest.
-/
import Storyboard.Chain

namespace Storyboard

/-- Commands that are repeated from a start on, their times counted from
there. -/
structure Loop (α : Type) where
  start : α
  count : Nat
  body : List (Event α)
  deriving DecidableEq

/-- One entry of a timeline. -/
inductive Entry (α : Type) where
  | event (event : Event α)
  | loop (loop : Loop α)
  deriving DecidableEq

/-- The entries of a sprite, in order. -/
structure Timeline (α : Type) where
  entries : List (Entry α)
  deriving DecidableEq

/-- One step of building a timeline. A loop that is lenient leaves out the
steps of its body that are at fault; any other loop fails with the first. -/
inductive Step (α : Type) where
  | event (draft : Draft α)
  | loop (start : α) (count : Nat) (lenient : Bool) (body : List (Step α))

variable {α : Type}

namespace Timeline

/-- A timeline without entries. -/
def empty : Timeline α := ⟨[]⟩

/-- Adds an entry at the end. -/
def push (t : Timeline α) (e : Entry α) : Timeline α := ⟨t.entries ++ [e]⟩

/-- The plain commands. -/
def events (t : Timeline α) : List (Event α) :=
  t.entries.filterMap fun
    | .event e => some e
    | .loop _ => none

/-- The loops. -/
def loops (t : Timeline α) : List (Loop α) :=
  t.entries.filterMap fun
    | .event _ => none
    | .loop l => some l

end Timeline

variable [Scalar α]

-- ============================================================ loops

namespace Loop

/-- The length of one round: when the last command of the body ends. -/
def span (l : Loop α) : α := Scalar.latest 0 (l.body.map Event.stop)

/-- When the last round ends. -/
def stop (l : Loop α) : α := l.start + l.span * Scalar.ofNat l.count

/-- The line that opens a loop. -/
def heading (l : Loop α) : String :=
  "L," ++ Scalar.text l.start ++ "," ++ toString l.count

end Loop

-- ============================================================ steps

namespace Step

/-- What a step adds to the body of a loop. -/
def inBody : Step α → Except (Fault α) (Event α)
  | event d => d.check
  | loop .. => .error .nestedLoop

/-- The body that steps build: the first fault among them, or, if lenient,
what those that are not at fault add. -/
def buildBody (lenient : Bool) (body : List (Step α)) : Except (Fault α) (List (Event α)) :=
  if lenient then .ok (body.filterMap fun s => s.inBody.toOption) else body.mapM inBody

/-- What a step adds to a timeline. -/
def entry : Step α → Except (Fault α) (Entry α)
  | event d => return .event (← d.check)
  | loop start count lenient body =>
    if count = 0 then .error (.setting .noRepeats)
    else return .loop { start, count, body := ← buildBody lenient body }

end Step

namespace Timeline

/-- Adds what a step makes. -/
def perform (t : Timeline α) (s : Step α) : Except (Fault α) (Timeline α) :=
  return t.push (← s.entry)

/-- Adds commands up to the first one that is at fault. -/
def extend (t : Timeline α) (drafts : List (Draft α)) : Timeline α × Option (Fault α) :=
  let (events, fault) := Draft.checkAll drafts
  (⟨t.entries ++ events.map .event⟩, fault)

-- ====================================================== in writing

/-- The lines of compacted commands, indented. -/
def commandLines (indent : String) (events : List (Event α)) : List String :=
  (Event.compact events).map (indent ++ ·.text)

/-- The lines of a sprite's timeline: its commands, then each loop with its
body one level deeper. -/
def lines (t : Timeline α) : List String :=
  commandLines " " t.events ++
    t.loops.flatMap fun l => (" " ++ l.heading) :: commandLines "  " l.body

end Timeline

end Storyboard
