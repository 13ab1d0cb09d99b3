/-
Compaction: the commands of a sprite, gathered into chains that can be written
as runs.

The commands of one kind are taken in order of their starts, and each joins
the chain of its pace that was begun last, if it goes on where that chain ends
and nothing of its kind comes between; else it begins a chain. A run starts
before its later steps do, so a command that starts within a chain would be
overruled by it: such a command breaks the chain. Flags and commands that take
no time have no pace and stay alone.

Chains keep the order in which they were begun, which is the order of their
starts.
-/
import Storyboard.Run

namespace Storyboard

variable {α : Type}

-- ============================================================ lines

/-- What is written as one command line: a command or a run. -/
inductive Line (α : Type) where
  | single (event : Event α)
  | run (run : Run α)
  deriving DecidableEq

namespace Line

def kind : Line α → Kind
  | single e => e.kind
  | run r => r.kind

def start : Line α → α
  | single e => e.start
  | run r => r.start

variable [Scalar α]

def stop : Line α → α
  | single e => e.stop
  | run r => r.stop

/-- The value at a time, along a given curve. -/
def valueAlong (l : Line α) (curve : α → α) (t : α) : Option (Value α) :=
  match l with
  | single e => e.valueAlong curve t
  | run r => r.valueAlong curve t

/-- The value at a time. -/
def valueAt [Elementary α] (l : Line α) (t : α) : Option (Value α) :=
  match l with
  | single e => e.valueAt t
  | run r => r.valueAt t

/-- The commands that the line stands for. -/
def expand : Line α → Except (Fault α) (List (Event α))
  | single e => .ok [e]
  | run r => r.expand

def text : Line α → String
  | single e => e.text
  | run r => r.text

end Line

-- ============================================================= pace

namespace Event

/-- The value that a command starts from. -/
def first? (e : Event α) : Option (Value α) := e.values.map Prod.fst

/-- The value that a command ends at. -/
def last? (e : Event α) : Option (Value α) := e.values.map Prod.snd

variable [Scalar α]

/-- The duration in whole microseconds, within a signed word. -/
def micros (e : Event α) : Int := (Scalar.reading (e.duration * 1000)).nearest

/-- The pace that steps of one run share. Flags and commands that take no time
have none. -/
def pace? (e : Event α) : Option Int :=
  if e.kind.isFlag || e.duration == 0 then none else some e.micros

/-- Whether `next` goes on where `e` ends: less than a millisecond away, on the
same curve, from the same value. -/
def leadsTo (e next : Event α) : Bool :=
  Scalar.within 1 next.start e.stop && next.easing = e.easing && next.first? == e.last?

/-- Whether a command starts after `lower` and no later than `upper`. -/
def startsIn (lower upper : α) (e : Event α) : Bool := lower < e.start && e.start ≤ upper

end Event

-- =========================================================== chains

/-- Commands that follow each other at one pace: the first of them, and the
others with the last one first. -/
structure Chain (α : Type) where
  pace : Option Int
  head : Event α
  later : List (Event α)

namespace Chain

/-- The command that the chain ends with. -/
def tail (c : Chain α) : Event α := c.later.headD c.head

/-- The commands of a chain, in order. -/
def events (c : Chain α) : List (Event α) := c.head :: c.later.reverse

variable [Scalar α]

/-- A chain of one command. -/
def begin (e : Event α) : Chain α := ⟨e.pace?, e, []⟩

/-- Whether, of all commands of the kind, one outside the chain starts after
the chain does and no later than `next`. -/
def interrupted (all : List (Event α)) (c : Chain α) (next : Event α) : Bool :=
  let within := Event.startsIn c.head.start next.start
  (next :: c.later).countP within < all.countP within

/-- Whether `next` can be one more step of the chain. -/
def admits (all : List (Event α)) (c : Chain α) (next : Event α) : Bool :=
  c.tail.leadsTo next && !c.interrupted all next

/-- The line that stands for a chain. -/
def line (c : Chain α) : Line α :=
  if c.later.isEmpty then .single c.head
  else .run {
    kind := c.head.kind
    easing := c.head.easing
    start := c.head.start
    step := c.head.duration
    values := c.head.first?.toList ++ c.events.filterMap Event.last? }

/-- Adds a command with a pace to the first chain of that pace, if there is one
and it admits the command. -/
def join? (all : List (Event α)) (e : Event α) (pace : Int) :
    List (Chain α) → Option (List (Chain α))
  | [] => none
  | c :: cs =>
    if c.pace = some pace then
      if c.admits all e then some ({ c with later := e :: c.later } :: cs) else none
    else (join? all e pace cs).map (c :: ·)

/-- Adds a command to the chains begun so far, of which the latest comes
first. -/
def place (all : List (Event α)) (chains : List (Chain α)) (e : Event α) : List (Chain α) :=
  (e.pace?.bind fun pace => join? all e pace chains).getD (begin e :: chains)

/-- The chains of commands of one kind that come in order of their starts. -/
def gather (all : List (Event α)) : List (Chain α) := (all.foldl (place all) []).reverse

end Chain

-- ======================================================= compaction

namespace Event

variable [Scalar α]

/-- Commands in order of their starts; those that start together keep their
order. -/
def inOrder (events : List (Event α)) : List (Event α) :=
  events.mergeSort fun d e => Scalar.precedes d.start e.start

/-- The chains of commands of any kinds, kind by kind. -/
def chains (events : List (Event α)) : List (Chain α) :=
  Kind.all.flatMap fun k => Chain.gather (inOrder (events.filter (·.kind = k)))

/-- The command lines of a list of commands. -/
def compact (events : List (Event α)) : List (Line α) := (chains events).map Chain.line

end Event

end Storyboard
