/-
What equal numbers say. Numbers that compare equal have one reading, up to the sign of a zero
(`Scalar.Faithful`), so it makes no difference in writing which of them is written.

Of the exact numbers this is clear. A stored number is read off its word, but compared through
its sign, exponent and digits; the two agree because reading a word is the same as taking it apart
first (`Binary.reading_eq`). What is undefined stays undefined when it is scaled.
-/
import Storyboard.Proofs.Number.Ordered

namespace Storyboard

/-- Zero without a sign; other readings as they are. -/
def Reading.unsigned : Reading → Reading
  | negZero => finite 0
  | r => r

/-- What equality owes: numbers that compare equal read the same, except that a negative zero
is equal to zero. -/
class Scalar.Faithful (α : Type) [Scalar α] : Prop where
  unsigned_eq : ∀ {a b : α}, (a == b) = true → (reading a).unsigned = (reading b).unsigned

instance : Scalar.Faithful Rat where
  unsigned_eq h := by rw [eq_of_beq h]

namespace Binary

open Float.Model (UnpackedFloat Format)
open Float.Model.UnpackedFloat (unpackMantissa unpackExponent unpackSign)

/-- The reading of a number that has been taken apart. -/
def meaning : UnpackedFloat → Reading
  | .notANumber => .nan
  | .infinity .negative => .negInfinity
  | .infinity .positive => .posInfinity
  | .zero .negative => .negZero
  | .zero .positive => .finite 0
  | .finite .negative m e _ => .finite (-scaled m e)
  | .finite .positive m e _ => .finite (scaled m e)

/-- No digits make zero, whatever the exponent. -/
theorem scaled_zero (e : Int) : scaled 0 e = 0 := by
  unfold scaled
  split
  · simp
  · exact Rat.zero_mkRat _

/-- The upper half of the words are negative. -/
theorem sign_unpack (word : BitVec 64) :
    UnpackedFloat.Sign.ofBitVec (@unpackSign Format.binary64 word)
      = if 0x8000000000000000 ≤ word.toNat then .negative else .positive := by
  have hlt : word.toNat < 2 ^ 64 := word.isLt
  -- the sign is the highest digit
  have hsign : (@unpackSign Format.binary64 word).toNat = word.toNat / 0x8000000000000000 := by
    simp only [unpackSign, BitVec.toNat_cast, BitVec.extractLsb_toNat, Nat.shiftRight_eq_div_pow]
    omega
  unfold UnpackedFloat.Sign.ofBitVec
  by_cases h : 0x8000000000000000 ≤ word.toNat
  · rw [if_pos h, if_neg]
    rw [BitVec.toNat_eq, hsign]
    show ¬_ = 0
    omega
  · rw [if_neg h, if_pos]
    rw [BitVec.toNat_eq, hsign]
    show _ = 0
    omega

/-- The digits are the 52 low ones of a word. -/
theorem toNat_unpackMantissa (word : BitVec 64) :
    (@unpackMantissa Format.binary64 word).toNat = word.toNat % 0x10000000000000 := by
  simp [unpackMantissa]

/-- The exponent is in the eleven digits above them. -/
theorem toNat_unpackExponent (word : BitVec 64) :
    (@unpackExponent Format.binary64 word).toNat = word.toNat / 0x10000000000000 % 0x800 := by
  simp [unpackExponent, Nat.shiftRight_eq_div_pow]

theorem unpackMantissa_eq_zero_iff (word : BitVec 64) :
    @unpackMantissa Format.binary64 word = 0#_ ↔ word.toNat % 0x10000000000000 = 0 := by
  rw [BitVec.toNat_eq, toNat_unpackMantissa]
  rfl

theorem unpackExponent_eq_greatest_iff (word : BitVec 64) :
    @unpackExponent Format.binary64 word = -1#_
      ↔ word.toNat / 0x10000000000000 % 0x800 = 0x7ff := by
  rw [BitVec.toNat_eq, toNat_unpackExponent]
  rfl

theorem unpackExponent_eq_zero_iff (word : BitVec 64) :
    @unpackExponent Format.binary64 word = 0#_
      ↔ word.toNat / 0x10000000000000 % 0x800 = 0 := by
  rw [BitVec.toNat_eq, toNat_unpackExponent]
  rfl

/-- Above the least exponent the leading digit is put back. -/
theorem toNat_leading (word : BitVec 64) :
    (1#1 ++ @unpackMantissa Format.binary64 word).toNat
      = 0x10000000000000 + word.toNat % 0x10000000000000 := by
  rw [BitVec.toNat_append, ← Nat.shiftLeft_add_eq_or_of_lt (BitVec.isLt _), toNat_unpackMantissa]
  rfl

theorem exponentBias_eq : (Format.binary64.exponentBias : Int) = 1023 := rfl

/-- Reading a word is the same as taking it apart first. -/
theorem ofWord_eq (word : BitVec 64) :
    ofWord word.toNat = meaning (UnpackedFloat.unpack Format.binary64 word) := by
  unfold ofWord UnpackedFloat.unpack
  simp only [sign_unpack word, unpackExponent_eq_greatest_iff word,
    unpackMantissa_eq_zero_iff word, unpackExponent_eq_zero_iff word, toNat_unpackExponent word,
    toNat_unpackMantissa word, toNat_leading word, exponentBias_eq]
  -- the sign, the greatest and the least exponent, and no digits: these tell the shapes apart
  by_cases hn : 0x8000000000000000 ≤ word.toNat <;>
    by_cases hg : word.toNat / 0x10000000000000 % 0x800 = 0x7ff <;>
    by_cases hl : word.toNat / 0x10000000000000 % 0x800 = 0 <;>
    by_cases hf : word.toNat % 0x10000000000000 = 0
  all_goals simp [hn, hg, hl, hf, meaning, magnitude, scaled_zero]

/-- So a stored number can be read off its parts. -/
theorem reading_eq (x : Float) : Scalar.reading x = meaning x.toModel.unpack :=
  ofWord_eq x.toModel.toBits.toBitVec

/-- The numbers that compare with themselves are those that are not undefined. -/
theorem le_self_iff {x : Float} : x ≤ x ↔ Scalar.reading x ≠ .nan := by
  have hself : x ≤ x ↔ isDefined x = true := by
    rw [le_iff_placeOf, and_self]
    exact and_iff_left le_rfl
  rw [hself, reading_eq]
  unfold isDefined
  rcases x.toModel.unpack with (_ | _) | _ | (_ | _) | ⟨_ | _, m, e, hm⟩ <;>
    simp [defined, meaning]

/-- An undefined number compares with nothing. -/
theorem not_le_of_nan_left {x y : Float} (h : Scalar.reading x = .nan) : ¬x ≤ y := fun hle =>
  le_self_iff.1 (Scalar.Ordered.le_self_left hle) h

theorem not_le_of_nan_right {x y : Float} (h : Scalar.reading y = .nan) : ¬x ≤ y := fun hle =>
  le_self_iff.1 (Scalar.Ordered.le_self_right hle) h

/-- Numbers that are in order neither way are not both defined. -/
theorem nan_of_not_le {x y : Float} (h : ¬x ≤ y) (h' : ¬y ≤ x) :
    Scalar.reading x = .nan ∨ Scalar.reading y = .nan := by
  by_contra hdefined
  rw [not_or] at hdefined
  rcases Scalar.Ordered.le_total (le_self_iff.2 hdefined.1) (le_self_iff.2 hdefined.2)
    with hle | hle
  · exact h hle
  · exact h' hle

/-- Only an undefined number reads as undefined. -/
theorem unpack_of_reading_nan {x : Float} (h : Scalar.reading x = .nan) :
    x.toModel.unpack = .notANumber := by
  rw [reading_eq] at h
  rcases hx : x.toModel.unpack with (_ | _) | _ | (_ | _) | ⟨_ | _, m, e, hm⟩ <;>
    simp_all [meaning]

/-- An undefined number stays undefined when it is multiplied. -/
theorem reading_mul_of_nan {x : Float} (h : Scalar.reading x = .nan) (y : Float) :
    Scalar.reading (x * y) = .nan := by
  have hmul : x * y
      = .ofModel (.pack (UnpackedFloat.mul .binary64 x.toModel.unpack y.toModel.unpack)) := rfl
  have hnan : UnpackedFloat.mul .binary64 .notANumber y.toModel.unpack = .notANumber := by
    cases y.toModel.unpack <;> rfl
  rw [hmul, unpack_of_reading_nan h, hnan]
  decide +kernel

/-- It stays so when it is divided. -/
theorem reading_div_of_nan {x : Float} (h : Scalar.reading x = .nan) (y : Float) :
    Scalar.reading (x / y) = .nan := by
  have hdiv : x / y
      = .ofModel (.pack (UnpackedFloat.div .binary64 x.toModel.unpack y.toModel.unpack)) := rfl
  have hnan : UnpackedFloat.div .binary64 .notANumber y.toModel.unpack = .notANumber := by
    cases y.toModel.unpack <;> rfl
  rw [hdiv, unpack_of_reading_nan h, hnan]
  decide +kernel

/-- The place of a number among all of them tells its reading. -/
theorem unsigned_meaning {u v : UnpackedFloat} (hu : defined u = true) (hv : defined v = true)
    (h : place u = place v) : (meaning u).unsigned = (meaning v).unsigned := by
  -- numbers in different places are told apart by the hypothesis; what is left is one shape
  rcases u with (_ | _) | _ | (_ | _) | ⟨_ | _, m, d, hm⟩ <;>
    rcases v with (_ | _) | _ | (_ | _) | ⟨_ | _, n, e, hn⟩ <;>
    simp_all [defined, place, meaning, Reading.unsigned]

end Binary

open Binary in
instance : Scalar.Faithful Float where
  unsigned_eq := by
    intro a b h
    have heq : (a.toModel.unpack.compare b.toModel.unpack == some .eq) = true := h
    rw [beq_iff_eq, compare_unpacked] at heq
    split at heq
    next hdefined =>
      obtain ⟨ha, hb⟩ := Bool.and_eq_true_iff.1 hdefined
      rw [reading_eq, reading_eq]
      exact unsigned_meaning ha hb (compare_eq_iff_eq.1 (Option.some.inj heq))
    · cases heq

end Storyboard
