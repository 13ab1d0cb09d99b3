/-
What a number says, apart from how it is stored: a rational, or one of the
values that no rational has. Every rule that leaves arithmetic — rounding to
a text, counting whole steps, sorting durations into groups — is stated on
the reading, so it means the same for stored and for exact numbers.
-/

namespace Storyboard

/-- The value of a number. A negative zero is kept apart from zero because it
is written differently where every digit counts. -/
inductive Reading where
  | nan
  | negInfinity
  | posInfinity
  | negZero
  | finite (value : Rat)
  deriving DecidableEq

-- ====================================================== rounding rules

/-- The nearest integer; a half goes to the even neighbour. -/
def roundHalfEven (q : Rat) : Int :=
  let below := q.floor
  let above := q - below
  if above < 1 / 2 then below
  else if 1 / 2 < above then below + 1
  else if below % 2 = 0 then below
  else below + 1

/-- The nearest integer; a half goes away from zero. -/
def roundHalfAway (q : Rat) : Int :=
  if 0 ≤ q then (q + 1 / 2).floor else -(-q + 1 / 2).floor

namespace Reading

/-- The largest count that a word of 64 bits holds. -/
def greatestWord : Nat := 0xffffffffffffffff

/-- The largest integer that a signed word of 64 bits holds. -/
def greatestInteger : Int := 0x7fffffffffffffff

/-- The rational that is meant, for a number that has one. -/
def rational? : Reading → Option Rat
  | finite q => some q
  | negZero => some 0
  | _ => none

/-- Neither infinite nor undefined. -/
def isFinite (r : Reading) : Bool := r.rational?.isSome

/-- How many whole units fit, within a word: none into a negative or
undefined number, as many as can be counted into infinity. -/
def whole : Reading → Nat
  | finite q => min q.floor.toNat greatestWord
  | posInfinity => greatestWord
  | _ => 0

/-- The nearest integer, a half going away from zero, kept within a signed
word; zero for an undefined number. -/
def nearest : Reading → Int
  | finite q => max (-greatestInteger - 1) (min (roundHalfAway q) greatestInteger)
  | posInfinity => greatestInteger
  | negInfinity => -greatestInteger - 1
  | _ => 0

end Reading

end Storyboard
