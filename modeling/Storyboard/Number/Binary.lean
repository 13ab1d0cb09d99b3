/-
The stored numbers: binary fractions of 53 digits. A stored word splits into a
sign, an exponent and a fraction, from which its exact value is read. The
words themselves, taken as signed magnitudes, give the order for sorting:
negative zero comes before zero and an undefined number after everything.
-/
import Storyboard.Number.Scalar

namespace Storyboard

namespace Binary

/-- The rational `m * 2 ^ e`. -/
def scaled (m : Nat) (e : Int) : Rat :=
  if 0 ≤ e then ((m * Nat.pow 2 e.toNat : Nat) : Rat) else mkRat m (Nat.pow 2 (-e).toNat)

/-- The value of a word's 63 low bits, for an exponent that is not the
greatest: below the least exponent the leading digit is no longer implied. -/
def magnitude (exponent fraction : Nat) : Rat :=
  if exponent = 0 then scaled fraction (-1074)
  else scaled (0x10000000000000 + fraction) ((exponent : Int) - 1075)

/-- The reading of a stored word: a sign, 11 digits of exponent, 52 of
fraction. -/
def ofWord (word : Nat) : Reading :=
  let negative := 0x8000000000000000 ≤ word
  let exponent := word / 0x10000000000000 % 0x800
  let fraction := word % 0x10000000000000
  if exponent = 0x7ff then
    if fraction ≠ 0 then .nan else if negative then .negInfinity else .posInfinity
  else if negative then
    if exponent = 0 ∧ fraction = 0 then .negZero else .finite (-magnitude exponent fraction)
  else .finite (magnitude exponent fraction)

/-- The place of a word among all words: those with a sign run backwards below
zero. -/
def rank (word : Nat) : Int :=
  if word < 0x8000000000000000 then word else 0x7fffffffffffffff - (word : Int)

end Binary

instance : Scalar Float where
  ofNat n := OfScientific.ofScientific n false 0
  precedes a b := decide (Binary.rank a.toBits.toNat ≤ Binary.rank b.toBits.toNat)
  reading x := Binary.ofWord x.toBits.toNat

instance : Elementary Float where
  pi := 3.141592653589793
  sin := Float.sin
  cos := Float.cos
  sqrt := Float.sqrt
  exp2 := Float.pow 2

end Storyboard
