/-
The screen that a storyboard is laid out for, the layers that are drawn on it
from back to front, and the points by which a sprite can be held.
-/
import Storyboard.Number.Scalar

namespace Storyboard

namespace Screen

variable {α : Type} [Scalar α]

def width : α := 640

def height : α := 480

/-- The width of the wide screen. It reaches out by about a hundred units on
both sides. -/
def wideWidth : α := 853

def wideLeft : α := -106

def wideRight : α := 746

/-- Whether a point is on screen, edges included. The wide screen differs only
in its sides. -/
def contains (wide : Bool) (p : Point α) : Bool :=
  let left : α := if wide then wideLeft else 0
  let right : α := if wide then wideRight else width
  left ≤ p.x && p.x ≤ right && 0 ≤ p.y && p.y ≤ height

end Screen

/-- Layers, in the order in which they are drawn. -/
inductive Layer where
  | background | fail | pass | foreground
  deriving DecidableEq

namespace Layer

def all : List Layer := [background, fail, pass, foreground]

theorem mem_all (l : Layer) : l ∈ all := by cases l <;> decide

/-- The number of a layer in headings and sample lines. -/
def index (l : Layer) : Nat := l.ctorIdx

def name : Layer → String
  | background => "Background"
  | fail => "Fail"
  | pass => "Pass"
  | foreground => "Foreground"

end Layer

/-- The point of an image that is put at a sprite's position. -/
inductive Origin where
  | topLeft | topCentre | topRight
  | centreLeft | centre | centreRight
  | bottomLeft | bottomCentre | bottomRight
  deriving DecidableEq

namespace Origin

def all : List Origin :=
  [topLeft, topCentre, topRight, centreLeft, centre, centreRight,
   bottomLeft, bottomCentre, bottomRight]

def name : Origin → String
  | topLeft => "TopLeft"
  | topCentre => "TopCentre"
  | topRight => "TopRight"
  | centreLeft => "CentreLeft"
  | centre => "Centre"
  | centreRight => "CentreRight"
  | bottomLeft => "BottomLeft"
  | bottomCentre => "BottomCentre"
  | bottomRight => "BottomRight"

end Origin

end Storyboard
