/-
The rationals that stored numbers read as. A stored number has 53 binary digits, so one that is far
from zero has none left for a fraction: from `2 ^ 52` on stored numbers are integers
(`Stored.exists_int`).
-/
import Mathlib
import Storyboard.Number.Binary

namespace Storyboard

/-- Whether some stored number reads as a rational. -/
def Stored (q : Rat) : Prop := ∃ x : Float, Scalar.reading x = .finite q

namespace Binary

/-- A magnitude is not negative. -/
theorem scaled_nonneg (m : Nat) (e : Int) : 0 ≤ scaled m e := by
  unfold scaled
  split
  · exact Nat.cast_nonneg _
  · rw [Rat.mkRat_eq_div]
    positivity

/-- A number of 53 digits with a fraction is less than `2 ^ 52`. -/
theorem exists_int_of_scaled {m : Nat} {e : Int} (hm : m < 2 ^ 53)
    (hlarge : 2 ^ 52 ≤ scaled m e) : ∃ n : Int, scaled m e = n := by
  unfold scaled at hlarge ⊢
  split at hlarge
  case isTrue he =>
    rw [if_pos he]
    exact ⟨_, (Int.cast_natCast _).symm⟩
  case isFalse he =>
    -- a negative exponent halves the digits once at least
    exfalso
    have htwo : (2 : Rat) ≤ ((Nat.pow 2 (-e).toNat : Nat) : Rat) := by
      have hpow : 2 ^ 1 ≤ Nat.pow 2 (-e).toNat := Nat.pow_le_pow_right (by omega) (by omega)
      exact_mod_cast hpow
    have hm' : (m : Rat) < 2 ^ 53 := by exact_mod_cast hm
    rw [Rat.mkRat_eq_div, Int.cast_natCast, le_div_iff₀ (by linarith)] at hlarge
    linarith

/-- A magnitude has 53 digits at most, so from `2 ^ 52` on it is an integer. -/
theorem exists_int_of_magnitude {exponent fraction : Nat} (hfraction : fraction < 0x10000000000000)
    (hlarge : 2 ^ 52 ≤ magnitude exponent fraction) :
    ∃ n : Int, magnitude exponent fraction = n := by
  unfold magnitude at hlarge ⊢
  split at hlarge
  case isTrue h =>
    rw [if_pos h]
    exact exists_int_of_scaled (by omega) hlarge
  case isFalse h =>
    rw [if_neg h]
    exact exists_int_of_scaled (by omega) hlarge

theorem magnitude_nonneg (exponent fraction : Nat) : 0 ≤ magnitude exponent fraction := by
  unfold magnitude
  split <;> exact scaled_nonneg _ _

end Binary

/-- Far from zero stored numbers are integers. -/
theorem Stored.exists_int {q : Rat} (h : Stored q) (hlarge : 2 ^ 52 ≤ |q|) :
    ∃ n : Int, q = n := by
  obtain ⟨x, hx⟩ := h
  have hfraction := Nat.mod_lt x.toBits.toNat (by omega : 0x10000000000000 > 0)
  have hnonneg := Binary.magnitude_nonneg (x.toBits.toNat / 0x10000000000000 % 0x800)
    (x.toBits.toNat % 0x10000000000000)
  change Binary.ofWord x.toBits.toNat = .finite q at hx
  unfold Binary.ofWord at hx
  dsimp only at hx
  -- of the readings only those with a magnitude are left, below zero and above
  split_ifs at hx
  · obtain rfl := Reading.finite.inj hx
    rw [abs_neg, abs_of_nonneg hnonneg] at hlarge
    obtain ⟨n, hn⟩ := Binary.exists_int_of_magnitude hfraction hlarge
    exact ⟨-n, by rw [hn, Int.cast_neg]⟩
  · obtain rfl := Reading.finite.inj hx
    rw [abs_of_nonneg hnonneg] at hlarge
    exact Binary.exists_int_of_magnitude hfraction hlarge

end Storyboard
