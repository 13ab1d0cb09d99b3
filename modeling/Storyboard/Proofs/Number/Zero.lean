/-
What zero does to stored numbers. A number to which a zero is added compares as it did before
(`Binary.add_le_iff`). A zero is what any finite number gives that is taken no times, but infinity
and an undefined number give an undefined one (`Binary.unpack_mul_zero`,
`Binary.reading_mul_zero`), and what is added to that is undefined too.
-/
import Storyboard.Proofs.Number.Faithful

namespace Storyboard

namespace Binary

open Float.Model (UnpackedFloat)
open Float.Model.UnpackedFloat (unpack_packedZero unpack_packedNaN)

variable {x y z : Float}

/-- The stored number for a number that has been taken apart. -/
def packed (u : UnpackedFloat) : Float := .ofModel (.pack u)

/-- A number that is taken apart can be put together again. -/
theorem packed_unpack (x : Float) : packed x.toModel.unpack = x := Float.ofBits_toBits x

theorem unpack_packed_zero (s : UnpackedFloat.Sign) :
    (packed (.zero s)).toModel.unpack = .zero s := unpack_packedZero

theorem unpack_packed_nan : (packed .notANumber).toModel.unpack = .notANumber := unpack_packedNaN

theorem unpack_zero : (Scalar.ofNat 0 : Float).toModel.unpack = .zero .positive := by
  have hzero : (Scalar.ofNat 0 : Float) = packed (.zero .positive) := by decide +kernel
  rw [hzero, unpack_packed_zero]

/-- A number reads as undefined only if it is stored so. -/
theorem reading_eq_nan_iff : Scalar.reading x = .nan ↔ x.toModel.unpack = .notANumber := by
  refine ⟨unpack_of_reading_nan, fun h => ?_⟩
  rw [reading_eq, h]
  rfl

-- ============================================================ added

/-- A number to which a zero is added has the place that it had. -/
theorem place_add_zero {s : UnpackedFloat.Sign} (hz : z.toModel.unpack = .zero s) :
    isDefined (x + z) = isDefined x ∧ placeOf (x + z) = placeOf x := by
  have hadd : x + z = packed (.add .binary64 x.toModel.unpack z.toModel.unpack) := rfl
  unfold isDefined placeOf
  rw [hadd, hz]
  cases hx : x.toModel.unpack with
  | zero s' =>
      -- the sum of two zeros is one of them
      have hsum : ∃ s'', UnpackedFloat.add .binary64 (.zero s') (.zero s) = .zero s'' := by
        cases s' <;> cases s <;> exact ⟨_, rfl⟩
      obtain ⟨s'', hsum⟩ := hsum
      rw [hsum, unpack_packed_zero]
      exact ⟨rfl, rfl⟩
  | _ =>
      rw [← hx]
      -- any other number is given back as it is
      have hsum : UnpackedFloat.add .binary64 x.toModel.unpack (.zero s) = x.toModel.unpack := by
        rw [hx]
        rfl
      rw [hsum, packed_unpack]
      exact ⟨rfl, rfl⟩

/-- A number to which a zero is added compares as it did. -/
theorem add_le_iff {s : UnpackedFloat.Sign} (hz : z.toModel.unpack = .zero s) :
    x + z ≤ y ↔ x ≤ y := by
  obtain ⟨hdefined, hplace⟩ := place_add_zero hz (x := x)
  rw [le_iff_placeOf, le_iff_placeOf, hdefined, hplace]

/-- What is added to an undefined number is undefined. -/
theorem reading_add_of_nan (h : Scalar.reading z = .nan) (x : Float) :
    Scalar.reading (x + z) = .nan := by
  have hadd : x + z = packed (.add .binary64 x.toModel.unpack z.toModel.unpack) := rfl
  have hnan : UnpackedFloat.add .binary64 x.toModel.unpack .notANumber = .notANumber := by
    cases x.toModel.unpack <;> rfl
  rw [reading_eq_nan_iff, hadd, unpack_of_reading_nan h, hnan, unpack_packed_nan]

-- ============================================================ taken

theorem mul_zero_eq (x : Float) :
    x * Scalar.ofNat 0 = packed (.mul .binary64 x.toModel.unpack (.zero .positive)) := by
  rw [← unpack_zero]
  rfl

/-- A finite number taken no times is a zero. -/
theorem unpack_mul_zero (h : (Scalar.reading x).isFinite = true) :
    ∃ s, (x * Scalar.ofNat 0).toModel.unpack = .zero s := by
  rw [reading_eq] at h
  have hzero : ∃ s, UnpackedFloat.mul .binary64 x.toModel.unpack (.zero .positive) = .zero s := by
    -- infinity and an undefined number are not finite; of the others the product is a zero
    cases hx : x.toModel.unpack with
    | notANumber =>
        rw [hx] at h
        cases h
    | infinity s =>
        rw [hx] at h
        cases s <;> cases h
    | zero s => exact ⟨_, rfl⟩
    | finite s m e hm => exact ⟨_, rfl⟩
  obtain ⟨s, hs⟩ := hzero
  exact ⟨s, by rw [mul_zero_eq, hs, unpack_packed_zero]⟩

/-- A number that is not finite is undefined when it is taken no times. -/
theorem reading_mul_zero (h : (Scalar.reading x).isFinite = false) :
    Scalar.reading (x * Scalar.ofNat 0) = .nan := by
  rw [reading_eq] at h
  have hnan : UnpackedFloat.mul .binary64 x.toModel.unpack (.zero .positive) = .notANumber := by
    cases hx : x.toModel.unpack with
    | notANumber => rfl
    | infinity s => rfl
    | zero s =>
        rw [hx] at h
        cases s <;> cases h
    | finite s m e hm =>
        rw [hx] at h
        cases s <;> cases h
  rw [reading_eq_nan_iff, mul_zero_eq, hnan, unpack_packed_nan]

end Binary

end Storyboard
