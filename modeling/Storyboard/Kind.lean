/-
The kinds of storyboard commands: what each changes, its code in command
lines, and how many components a value of it has.

Three kinds are flags. They switch something on for a while, take no value and
share one code, so their lines end in a letter that tells them apart.
-/

namespace Storyboard

inductive Kind where
  | fade | move | moveX | moveY | scale | vectorScale | rotate | color
  | flipHorizontal | flipVertical | additive
  deriving DecidableEq

namespace Kind

/-- All kinds, in the order in which the lines of a sprite are grouped. -/
def all : List Kind :=
  [fade, move, moveX, moveY, scale, vectorScale, rotate, color,
   flipHorizontal, flipVertical, additive]

theorem mem_all (k : Kind) : k ∈ all := by cases k <;> decide

/-- The name of a kind, as messages give it. -/
def name : Kind → String
  | fade => "Fade"
  | move => "Move"
  | moveX => "MoveX"
  | moveY => "MoveY"
  | scale => "Scale"
  | vectorScale => "VectorScale"
  | rotate => "Rotate"
  | color => "Color"
  | flipHorizontal => "FlipHorizontal"
  | flipVertical => "FlipVertical"
  | additive => "Additive"

/-- The code that opens a command line. -/
def code : Kind → String
  | fade => "F"
  | move => "M"
  | moveX => "MX"
  | moveY => "MY"
  | scale => "S"
  | vectorScale => "V"
  | rotate => "R"
  | color => "C"
  | flipHorizontal | flipVertical | additive => "P"

/-- The letter that tells flags apart. -/
def letter? : Kind → Option String
  | flipHorizontal => some "H"
  | flipVertical => some "V"
  | additive => some "A"
  | _ => none

/-- Whether the kind only switches something on for a while. -/
def isFlag (k : Kind) : Bool := k.letter?.isSome

/-- How many components a value of the kind has. -/
def arity : Kind → Nat
  | fade | moveX | moveY | scale | rotate => 1
  | move | vectorScale => 2
  | color => 3
  | flipHorizontal | flipVertical | additive => 0

theorem isFlag_iff_arity (k : Kind) : k.isFlag = true ↔ k.arity = 0 := by cases k <;> decide

end Kind

end Storyboard
