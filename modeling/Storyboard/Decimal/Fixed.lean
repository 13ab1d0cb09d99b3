/-
Decimals with a fixed number of places, and their text: a sign, the integer
part without leading zeros, and a point before the places, if there are any.

Command lines carry thousandths. `Scalar.text` rounds the exact value of a
number to the nearest thousandth, a tie to the even one, and leaves out the
zeros at the end; so a number has one written form, and a number that rounds
to zero has no sign.
-/
import Storyboard.Number.Scalar

namespace Storyboard

/-- The decimal `units / 10 ^ places`. -/
structure Decimal where
  units : Int
  places : Nat
  deriving DecidableEq

namespace Decimal

/-- The decimal of so many places that is nearest to `q`; of two, the one with
an even last digit. -/
def nearest (places : Nat) (q : Rat) : Decimal :=
  ⟨roundHalfEven (q * (Nat.pow 10 places : Nat)), places⟩

/-- The rational that a decimal stands for. -/
def value (d : Decimal) : Rat := mkRat d.units (Nat.pow 10 d.places)

/-- Zeros at the end of `n / 10 ^ k` dropped, as far as there are places. -/
def dropZeros : (k n : Nat) → Nat × Nat
  | 0, n => (n, 0)
  | k + 1, n => if n % 10 = 0 then dropZeros k (n / 10) else (n, k + 1)

/-- The same number without zeros at the end of its places. -/
def reduced (d : Decimal) : Decimal :=
  let (n, k) := dropZeros d.places d.units.natAbs
  ⟨if d.units < 0 then -n else n, k⟩

/-- The last `k` digits of `n`, leading zeros included. -/
def lastDigits : (k n : Nat) → List Char
  | 0, _ => []
  | k + 1, n => lastDigits k (n / 10) ++ [(n % 10).digitChar]

/-- The digits of `n / 10 ^ k`, with a point before the last `k`. -/
def positional (k n : Nat) : List Char :=
  if k = 0 then Nat.toDigits 10 n
  else Nat.toDigits 10 (n / Nat.pow 10 k) ++ '.' :: lastDigits k n

/-- The characters of a decimal. -/
def chars (d : Decimal) : List Char :=
  if d.units < 0 then '-' :: positional d.places d.units.natAbs
  else positional d.places d.units.natAbs

/-- A decimal in writing. -/
def text (d : Decimal) : String := String.ofList d.chars

end Decimal

-- ============================================== numbers in command lines

/-- A number as command lines write it: its nearest thousandth, without zeros
at the end. -/
def Reading.text : Reading → String
  | nan => "NaN"
  | negInfinity => "-inf"
  | posInfinity => "inf"
  | negZero => "0"
  | finite q => (Decimal.nearest 3 q).reduced.text

namespace Scalar

variable {α : Type} [Scalar α]

/-- A number as command lines write it. -/
def text (x : α) : String := (reading x).text

/-- Numbers in writing, with commas between them. -/
def listText (xs : List α) : String := ",".intercalate (xs.map text)

/-- A start and an end time. The end is left empty when it reads the same as
the start. -/
def spanText (start stop : α) : String :=
  text start ++ "," ++ if text start = text stop then "" else text stop

end Scalar

end Storyboard
