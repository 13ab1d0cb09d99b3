/-
The easing curves of storyboard commands and their formulas.

A curve maps progress, from 0 to 1, to how much of the way has been covered.
Curves are numbered from 0 in the order in which they are listed here; command
lines carry the number. Progress outside the unit interval is not special: the
formulas apply to it as they stand.
-/
import Storyboard.Number.Scalar

namespace Storyboard

inductive Easing where
  | linear | out | inwards
  | quadIn | quadOut | quadInOut
  | cubicIn | cubicOut | cubicInOut
  | quartIn | quartOut | quartInOut
  | quintIn | quintOut | quintInOut
  | sineIn | sineOut | sineInOut
  | expoIn | expoOut | expoInOut
  | circIn | circOut | circInOut
  | elasticIn | elasticOut | elasticHalfOut | elasticQuarterOut | elasticInOut
  | backIn | backOut | backInOut
  | bounceIn | bounceOut | bounceInOut
  deriving DecidableEq

namespace Easing

/-- All curves, in the order of their numbers. -/
def all : List Easing :=
  [linear, out, inwards, quadIn, quadOut, quadInOut, cubicIn, cubicOut, cubicInOut,
   quartIn, quartOut, quartInOut, quintIn, quintOut, quintInOut, sineIn, sineOut, sineInOut,
   expoIn, expoOut, expoInOut, circIn, circOut, circInOut,
   elasticIn, elasticOut, elasticHalfOut, elasticQuarterOut, elasticInOut,
   backIn, backOut, backInOut, bounceIn, bounceOut, bounceInOut]

/-- The number of a curve in command lines. -/
def number (e : Easing) : Nat := e.ctorIdx

/-- The curve with a number. -/
def ofNumber? (n : Int) : Option Easing := if n < 0 then none else all[n.toNat]?

theorem ofNumber?_number (e : Easing) : ofNumber? e.number = some e := by cases e <;> rfl

/-- The name of a curve. -/
def name : Easing → String
  | linear => "Linear" | out => "Out" | inwards => "In"
  | quadIn => "QuadIn" | quadOut => "QuadOut" | quadInOut => "QuadInOut"
  | cubicIn => "CubicIn" | cubicOut => "CubicOut" | cubicInOut => "CubicInOut"
  | quartIn => "QuartIn" | quartOut => "QuartOut" | quartInOut => "QuartInOut"
  | quintIn => "QuintIn" | quintOut => "QuintOut" | quintInOut => "QuintInOut"
  | sineIn => "SineIn" | sineOut => "SineOut" | sineInOut => "SineInOut"
  | expoIn => "ExpoIn" | expoOut => "ExpoOut" | expoInOut => "ExpoInOut"
  | circIn => "CircIn" | circOut => "CircOut" | circInOut => "CircInOut"
  | elasticIn => "ElasticIn" | elasticOut => "ElasticOut"
  | elasticHalfOut => "ElasticHalfOut" | elasticQuarterOut => "ElasticQuarterOut"
  | elasticInOut => "ElasticInOut"
  | backIn => "BackIn" | backOut => "BackOut" | backInOut => "BackInOut"
  | bounceIn => "BounceIn" | bounceOut => "BounceOut" | bounceInOut => "BounceInOut"

-- ================================================== shared pieces

variable {α : Type} [Scalar α]

/-- The third power. -/
def cube (t : α) : α := t * t * t

/-- The fourth power, as the square of a square. -/
def fourth (t : α) : α := t * t * (t * t)

/-- The fifth power. -/
def fifth (t : α) : α := t * fourth t

/-- How far the back curves swing. -/
def overshoot : α := 1.70158

/-- How far the two-sided back curve swings. -/
def wideOvershoot : α := overshoot * 1.525

/-- Four parabolas of falling height, the last one ending at 1. -/
def bounce (t : α) : α :=
  if t < 1 / 2.75 then 7.5625 * t * t
  else if t < 2 / 2.75 then
    let d := t - 1.5 / 2.75
    7.5625 * d * d + 0.75
  else if t < 2.5 / 2.75 then
    let d := t - 2.25 / 2.75
    7.5625 * d * d + 0.9375
  else
    let d := t - 2.625 / 2.75
    7.5625 * d * d + 0.984375

section

variable [Elementary α]

open Elementary

/-- The height of the unit circle over `d`; zero beside the circle. -/
def arc (d : α) : α := sqrt (Scalar.later 0 (1 - d * d))

/-- The angle per unit of time of the elastic curves. -/
def elasticRate : α := 2 * pi / 0.3

/-- The delay of the elastic curves, a quarter of their period. -/
def elasticDelay : α := 0.3 / 4

/-- A decaying oscillation around 1. -/
def elastic (period t : α) : α :=
  exp2 (-10 * t) * sin ((period * t - elasticDelay) * elasticRate) + 1

-- ===================================================== the curves

/-- The curve's value at progress `t`. -/
def apply (e : Easing) (t : α) : α :=
  match e with
  | linear => t
  | inwards | quadIn => t * t
  | out | quadOut => t * (2 - t)
  | quadInOut => if t < 0.5 then 2 * t * t else -2 * (t - 1) * (t - 1) + 1
  | cubicIn => cube t
  | cubicOut => cube (t - 1) + 1
  | cubicInOut => if t < 0.5 then 4 * cube t else 4 * cube (t - 1) + 1
  | quartIn => fourth t
  | quartOut => 1 - fourth (t - 1)
  | quartInOut => if t < 0.5 then 8 * fourth t else -8 * fourth (t - 1) + 1
  | quintIn => fifth t
  | quintOut => fifth (t - 1) + 1
  | quintInOut => if t < 0.5 then 16 * fifth t else 16 * fifth (t - 1) + 1
  | sineIn => 1 - cos (t * pi / 2)
  | sineOut => sin (t * pi / 2)
  | sineInOut => 0.5 - 0.5 * cos (pi * t)
  | expoIn => if t ≤ 0 then 0 else exp2 (10 * (t - 1))
  | expoOut => if 1 ≤ t then 1 else 1 - exp2 (-10 * t)
  | expoInOut =>
    if t ≤ 0 then 0
    else if 1 ≤ t then 1
    else if t < 0.5 then 0.5 * exp2 (20 * t - 10)
    else 1 - 0.5 * exp2 (-20 * t + 10)
  | circIn => 1 - arc t
  | circOut => arc (t - 1)
  | circInOut =>
    let d := 2 * t
    if d < 1 then 0.5 - 0.5 * arc d else 0.5 * arc (d - 2) + 0.5
  | elasticIn => -(exp2 (-10 + 10 * t)) * sin ((1 - elasticDelay - t) * elasticRate)
  | elasticOut => elastic 1 t
  | elasticHalfOut => elastic 0.5 t
  | elasticQuarterOut => elastic 0.25 t
  | elasticInOut =>
    let d := 2 * t
    if d < 1 then
      -0.5 * exp2 (-10 + 10 * d) * sin ((1 - elasticDelay * 1.5 - d) * elasticRate / 1.5)
    else
      let d := d - 1
      0.5 * exp2 (-10 * d) * sin ((d - elasticDelay * 1.5) * elasticRate / 1.5) + 1
  | backIn => t * t * ((overshoot + 1) * t - overshoot)
  | backOut =>
    let d := t - 1
    d * d * ((overshoot + 1) * d + overshoot) + 1
  | backInOut =>
    let d := 2 * t
    if d < 1 then 0.5 * d * d * ((wideOvershoot + 1) * d - wideOvershoot)
    else
      let d := d - 2
      0.5 * (d * d * ((wideOvershoot + 1) * d + wideOvershoot) + 2)
  | bounceIn => 1 - bounce (1 - t)
  | bounceOut => bounce t
  | bounceInOut =>
    if t < 0.5 then 0.5 - 0.5 * bounce (1 - 2 * t)
    else 0.5 * bounce ((t - 0.5) * 2) + 0.5

end

end Easing

end Storyboard
