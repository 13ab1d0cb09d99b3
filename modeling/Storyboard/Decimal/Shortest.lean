/-
The shortest decimal that reads back as a stored number.

A stored number stands for all values nearer to it than to its neighbours (or
half way to one, if its last binary digit is even). Of the decimals among
these, the one on the coarsest decimal grid has the fewest digits; at most two
points of that grid are candidates, and the nearer one is taken, the upper one
on a tie.
-/
import Storyboard.Decimal.Fixed
import Storyboard.Number.Binary

namespace Storyboard

/-- A binary format: how many digits it stores, and the exponent of its
smallest unit. -/
structure Precision where
  digits : Nat
  leastExponent : Int

namespace Precision

/-- Numbers of 64 bits. -/
def double : Precision := ⟨53, -1074⟩

/-- Numbers of 32 bits. -/
def single : Precision := ⟨24, -149⟩

/-- The exponent of the last digit stored of a positive `q`. -/
def lastExponent (p : Precision) (q : Rat) : Int :=
  max p.leastExponent ((q.num.natAbs.log2 : Int) - q.den.log2 - (p.digits - 1 : Nat))

/-- The values that read back as a positive stored `q`. -/
def readsBack (p : Precision) (q x : Rat) : Bool :=
  let e := p.lastExponent q
  let unit := Binary.scaled 1 e
  let mantissa := (q / unit).floor.toNat
  let narrow := mantissa = Nat.pow 2 (p.digits - 1) ∧ p.leastExponent < e
  let low := q - if narrow then unit / 4 else unit / 2
  let high := q + unit / 2
  if mantissa % 2 = 0 then low ≤ x && x ≤ high else low < x && x < high

end Precision

namespace Decimal

/-- The spacing of the grid whose last digit has weight `10 ^ k`. -/
def spacing (k : Int) : Rat :=
  if 0 ≤ k then ((Nat.pow 10 k.toNat : Nat) : Rat) else mkRat 1 (Nat.pow 10 (-k).toNat)

/-- The number `n * 10 ^ k`, with places only where they are needed. -/
def ofGrid (n k : Int) : Decimal :=
  if 0 ≤ k then ⟨n * (Nat.pow 10 k.toNat : Nat), 0⟩ else ⟨n, (-k).toNat⟩

/-- The point nearest to `q` among those of one grid that are accepted; the
upper one on a tie. -/
def pointOn (accepts : Rat → Bool) (q : Rat) (k : Int) : Option Int :=
  let below := (q / spacing k).floor
  match accepts (below * spacing k), accepts ((below + 1) * spacing k) with
  | true, true =>
    if q - below * spacing k < (below + 1) * spacing k - q then some below else some (below + 1)
  | true, false => some below
  | false, true => some (below + 1)
  | false, false => none

/-- The first point found on ever finer grids. -/
def search (accepts : Rat → Bool) (q : Rat) (k : Int) : (grids : Nat) → Decimal
  | 0 => ofGrid (roundHalfEven (q / spacing k)) k
  | grids + 1 =>
    match pointOn accepts q k with
    | some n => ofGrid n k
    | none => search accepts q (k - 1) grids

/-- A grid that is coarser than a positive `q`. -/
def coarsest (q : Rat) : Int :=
  if 1 ≤ q then (Nat.toDigits 10 q.floor.toNat).length
  else 2 - ((Nat.toDigits 10 (1 / q).floor.toNat).length : Int)

/-- The shortest decimal that reads back as a positive stored `q`; seventeen
digits always do. -/
def shortest (p : Precision) (q : Rat) : Decimal :=
  search (p.readsBack q) q (coarsest q) 20

end Decimal

/-- A stored number in full: as many digits as tell it from its neighbours,
never an exponent, and the sign of a zero. -/
def Reading.fullText (p : Precision) : Reading → String
  | nan => "NaN"
  | negInfinity => "-inf"
  | posInfinity => "inf"
  | negZero => "-0"
  | finite q =>
    if q = 0 then "0"
    else if q < 0 then "-" ++ (Decimal.shortest p (-q)).text
    else (Decimal.shortest p q).text

namespace Binary

/-- A number in full. -/
def fullText (x : Float) : String := (Scalar.reading x).fullText .double

/-- A number of single precision in full. -/
def singleText (x : Float) : String := (Scalar.reading x).fullText .single

end Binary

end Storyboard
