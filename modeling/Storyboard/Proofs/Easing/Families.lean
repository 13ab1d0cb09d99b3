/-
The easing curves that are made of polynomials. They come in families of three: a curve that
starts slowly, one that ends slowly, and one that does both. Each is written down by a formula of
its own, and here it is shown that they are made from one: the second is the first turned round,
the third is twofold (`Family.apply_inwards`, `Family.apply_outwards`, `Family.apply_twofold`).
The back curves are an exception, as their third curve is made from one that swings wider.

So all that is asked of the curves is asked of the pieces of the first (`Family.regular_slow`,
`Family.regular_wide`, `Family.bounded_slow`).
-/
import Storyboard.Easing
import Storyboard.Number.Exact
import Storyboard.Proofs.Easing.Pieces

namespace Storyboard

open Pieces (formula broken)

/-- The families of curves that are made of polynomials. -/
inductive Family where
  | quad | cubic | quart | quint | back | bounce
  deriving DecidableEq

-- ============================================================ pieces

/-- A cubic that first swings back, and how far. -/
def swing (overshoot : Rat) : Pieces := formula fun t => t ^ 2 * ((overshoot + 1) * t - overshoot)

/-- Four parabolas, with breaks where the curve bounces. -/
def bounces : Pieces :=
  broken (4 / 11) (formula fun t => 121 / 16 * t ^ 2) <|
  broken (8 / 11) (formula fun t => 121 / 16 * (t - 6 / 11) ^ 2 + 3 / 4) <|
  broken (10 / 11) (formula fun t => 121 / 16 * (t - 9 / 11) ^ 2 + 15 / 16) <|
  formula fun t => 121 / 16 * (t - 21 / 22) ^ 2 + 63 / 64

/-- A power goes from 0 to 1. -/
theorem regular_power {n : Nat} (hn : n ≠ 0) : (formula fun t => t ^ n).Regular where
  joined := trivial
  smooth := continuous_pow n
  value_zero := zero_pow hn
  value_one := one_pow n

/-- It stays between 0 and 1 as long as its argument does. -/
theorem bounded_power (n : Nat) : (formula fun t => t ^ n).Bounded :=
  fun _ ht ht' => ⟨pow_nonneg ht n, pow_le_one₀ ht ht'⟩

/-- However far a cubic swings back first, it goes from 0 to 1. -/
theorem regular_swing (overshoot : Rat) : (swing overshoot).Regular where
  joined := trivial
  smooth := by
    show Continuous fun t => t ^ 2 * ((overshoot + 1) * t - overshoot)
    fun_prop
  value_zero := by simp [swing, Pieces.value]
  value_one := by simp [swing, Pieces.value]

/-- Neighbouring parabolas meet where one takes over from the other. -/
theorem regular_bounces : bounces.Regular where
  joined := by norm_num [bounces, Pieces.Joined, Pieces.value]
  smooth := by
    refine ⟨?_, ?_, ?_, ?_⟩
    all_goals
      unfold Pieces.Smooth
      fun_prop
  value_zero := by norm_num [bounces, Pieces.value]
  value_one := by norm_num [bounces, Pieces.value]

/-- A parabola stays below 1 as long as it is not further from its lowest point than where it
reaches 1. -/
theorem parabola_mem {d reach low : Rat} (hd : |d| ≤ reach) (hlow : 0 ≤ low)
    (htop : 121 / 16 * reach ^ 2 + low = 1) :
    0 ≤ 121 / 16 * d ^ 2 + low ∧ 121 / 16 * d ^ 2 + low ≤ 1 := by
  have hsquare : d ^ 2 ≤ reach ^ 2 := sq_le_sq.2 (hd.trans (le_abs_self reach))
  exact ⟨by positivity, by linarith⟩

/-- No parabola is followed further than to where it reaches 1. -/
theorem bounded_bounces : bounces.Bounded := by
  intro t ht ht'
  rw [bounces]
  -- on each part the parabola is no further from its lowest point than its reach
  rcases lt_or_ge t (4 / 11) with h | h
  · rw [Pieces.value_of_lt h, Pieces.value, ← add_zero (121 / 16 * t ^ 2)]
    exact parabola_mem (abs_le.2 ⟨by linarith, h.le⟩) le_rfl (by norm_num)
  rw [Pieces.value_of_le h]
  rcases lt_or_ge t (8 / 11) with h' | h'
  · rw [Pieces.value_of_lt h', Pieces.value]
    have hd : |t - 6 / 11| ≤ 2 / 11 := abs_le.2 ⟨by linarith, by linarith⟩
    exact parabola_mem hd (by norm_num) (by norm_num)
  rw [Pieces.value_of_le h']
  rcases lt_or_ge t (10 / 11) with h'' | h''
  · rw [Pieces.value_of_lt h'', Pieces.value]
    have hd : |t - 9 / 11| ≤ 1 / 11 := abs_le.2 ⟨by linarith, by linarith⟩
    exact parabola_mem hd (by norm_num) (by norm_num)
  · rw [Pieces.value_of_le h'', Pieces.value]
    have hd : |t - 21 / 22| ≤ 1 / 22 := abs_le.2 ⟨by linarith, by linarith⟩
    exact parabola_mem hd (by norm_num) (by norm_num)

-- ========================================================== families

namespace Family

/-- The curve that starts slowly. -/
def inwards : Family → Easing
  | quad => .quadIn | cubic => .cubicIn | quart => .quartIn | quint => .quintIn
  | back => .backIn | bounce => .bounceIn

/-- The curve that ends slowly. -/
def outwards : Family → Easing
  | quad => .quadOut | cubic => .cubicOut | quart => .quartOut | quint => .quintOut
  | back => .backOut | bounce => .bounceOut

/-- The curve that does both. -/
def twofold : Family → Easing
  | quad => .quadInOut | cubic => .cubicInOut | quart => .quartInOut | quint => .quintInOut
  | back => .backInOut | bounce => .bounceInOut

/-- The pieces of the curve that starts slowly. -/
def slow : Family → Pieces
  | quad => formula fun t => t ^ 2
  | cubic => formula fun t => t ^ 3
  | quart => formula fun t => t ^ 4
  | quint => formula fun t => t ^ 5
  | back => swing 1.70158
  | bounce => bounces.turned

/-- The pieces of the curve that the one that does both is twice made of: that which starts
slowly, except that of the back curves swings wider. -/
def wide : Family → Pieces
  | back => swing (1.70158 * 1.525)
  | f => f.slow

/-- Only the back curves have a third curve that is made from another one. -/
theorem wide_eq_slow {f : Family} (h : f ≠ back) : f.wide = f.slow := by
  cases f with
  | back => exact absurd rfl h
  | _ => rfl

/-- The first curve of every family goes from 0 to 1 without a jump. -/
theorem regular_slow (f : Family) : f.slow.Regular := by
  cases f with
  | back => exact regular_swing _
  | bounce => exact regular_bounces.turned
  | _ => exact regular_power (by decide)

/-- So does the one that the third curve is made from. -/
theorem regular_wide (f : Family) : f.wide.Regular := by
  rcases eq_or_ne f back with rfl | h
  · exact regular_swing _
  · rw [wide_eq_slow h]
    exact regular_slow f

/-- The first curve of every family but the back curves stays in the unit interval. -/
theorem bounded_slow {f : Family} (h : f ≠ back) : f.slow.Bounded := by
  cases f with
  | back => exact absurd rfl h
  | bounce => exact bounded_bounces.turned regular_bounces.joined
  | _ => exact bounded_power _

end Family

-- ==================================================== the formulas

/-- The formula of a bounce is that of the four parabolas. -/
theorem Easing.bounce_eq (t : Rat) : bounce t = bounces.value t := by
  norm_num [bounce, bounces, Pieces.value, Scalar.ofNat, pow_two, mul_assoc]

namespace Family

open Easing

variable [Elementary Rat] (f : Family) {t : Rat}

/-- The formula of the first curve is that of its pieces. -/
theorem apply_inwards (t : Rat) : f.inwards.apply t = f.slow.value t := by
  cases f with
  | quad | cubic | quart | quint =>
      simp only [inwards, slow, apply, cube, fourth, fifth, Pieces.value]
      ring
  | back =>
      norm_num [inwards, slow, swing, apply, overshoot, Pieces.value, Scalar.ofNat, pow_two]
  | bounce =>
      -- of the bounces the curve that ends slowly is the one that is written down
      rw [slow, Pieces.value_turned regular_bounces.joined, ← bounce_eq]
      rfl

/-- The formula of the second curve is that of the first one turned round. -/
theorem apply_outwards (t : Rat) : f.outwards.apply t = f.slow.turned.value t := by
  rw [Pieces.value_turned f.regular_slow.joined]
  cases f with
  | quad | cubic | quart | quint | back =>
      norm_num [outwards, slow, swing, apply, cube, fourth, fifth, overshoot, Pieces.value,
        Scalar.ofNat]
      ring
  | bounce =>
      -- what has been turned round twice is as it was
      rw [slow, Pieces.value_turned regular_bounces.joined, sub_sub_cancel, sub_sub_cancel,
        ← bounce_eq]
      rfl

/-- Up to the middle the formula of the third curve is that of a curve at half its size. -/
theorem apply_twofold_of_lt (h : t < 1 / 2) : f.twofold.apply t = f.wide.value (2 * t) / 2 := by
  cases f with
  | quad | cubic | quart | quint =>
      norm_num [twofold, wide, slow, apply, cube, fourth, fifth, Pieces.value, Scalar.ofNat, h]
      ring
  | back =>
      have h' : 2 * t < 1 := by linarith
      norm_num [twofold, wide, swing, apply, overshoot, wideOvershoot, Pieces.value,
        Scalar.ofNat, h']
      ring
  | bounce =>
      rw [wide_eq_slow (by decide), slow, Pieces.value_turned regular_bounces.joined, ← bounce_eq]
      norm_num [twofold, apply, Scalar.ofNat, h]
      ring

/-- From the middle on it is that of the same curve turned round. -/
theorem apply_twofold_of_ge (h : 1 / 2 ≤ t) :
    f.twofold.apply t = 1 - f.wide.value (2 * (1 - t)) / 2 := by
  cases f with
  | quad | cubic | quart | quint =>
      norm_num [twofold, wide, slow, apply, cube, fourth, fifth, Pieces.value, Scalar.ofNat,
        h.not_gt]
      ring
  | back =>
      have h' : 1 ≤ 2 * t := by linarith
      norm_num [twofold, wide, swing, apply, overshoot, wideOvershoot, Pieces.value,
        Scalar.ofNat, h'.not_gt]
      ring
  | bounce =>
      rw [wide_eq_slow (by decide), slow, Pieces.value_turned regular_bounces.joined, ← bounce_eq]
      -- the formula asks for the bounce by how far it is from the middle
      have hpart : 1 - 2 * (1 - t) = (t - 1 / 2) * 2 := by ring
      norm_num [twofold, apply, Scalar.ofNat, h.not_gt, hpart]
      ring

/-- So the third curve is twofold. -/
theorem apply_twofold (t : Rat) : f.twofold.apply t = f.wide.twofold.value t := by
  rcases lt_or_ge t (1 / 2) with h | h
  · rw [f.apply_twofold_of_lt h, f.regular_wide.value_twofold_of_le h.le]
  · rw [f.apply_twofold_of_ge h, f.regular_wide.value_twofold_of_ge h]

end Family

-- ======================================================= consistency

namespace Easing

/-- The curves that are made of polynomials, and their pieces. -/
inductive Algebraic : Easing → Pieces → Prop where
  | linear : Algebraic .linear (formula fun t => t)
  | inwards (f : Family) : Algebraic f.inwards f.slow
  | outwards (f : Family) : Algebraic f.outwards f.slow.turned
  | twofold (f : Family) : Algebraic f.twofold f.wide.twofold

variable {e : Easing} {p : Pieces}

namespace Algebraic

/-- Every curve that is made of polynomials goes from 0 to 1 without a jump. -/
theorem regular (h : Algebraic e p) : p.Regular := by
  cases h with
  | linear => exact ⟨trivial, continuous_id, rfl, rfl⟩
  | inwards f => exact f.regular_slow
  | outwards f => exact f.regular_slow.turned
  | twofold f => exact f.regular_wide.twofold

/-- No curve but the back curves leaves the unit interval. -/
theorem bounded (h : Algebraic e p) (hback : e ∉ [backIn, backOut, backInOut]) : p.Bounded := by
  cases h with
  | linear => exact fun t ht ht' => ⟨ht, ht'⟩
  | inwards f =>
      refine Family.bounded_slow fun hf => hback ?_
      simp [hf, Family.inwards]
  | outwards f =>
      refine .turned f.regular_slow.joined (Family.bounded_slow fun hf => hback ?_)
      simp [hf, Family.outwards]
  | twofold f =>
      have hf : f ≠ .back := fun hf => hback (by simp [hf, Family.twofold])
      rw [Family.wide_eq_slow hf]
      exact .twofold f.regular_slow (Family.bounded_slow hf)

variable [Elementary Rat]

/-- The formula of a curve is that of its pieces. -/
theorem apply_eq (h : Algebraic e p) (t : Rat) : e.apply t = p.value t := by
  cases h with
  | linear => rfl
  | inwards f => exact f.apply_inwards t
  | outwards f => exact f.apply_outwards t
  | twofold f => exact f.apply_twofold t

end Algebraic

variable [Elementary Rat]

/-- What the curves that are made of polynomials have in common. -/
structure Consistent : Prop where
  /-- The second curve of a family is the first one turned round. -/
  outwards : ∀ (f : Family) (t : Rat), f.outwards.apply t = 1 - f.inwards.apply (1 - t)
  /-- The third one is the same when it is turned round. -/
  twofold : ∀ (f : Family) (t : Rat), f.twofold.apply t = 1 - f.twofold.apply (1 - t)
  /-- Its first half is the first curve at half its size, except for the back curves. -/
  half : ∀ f : Family, f ≠ .back → ∀ t : Rat, t < 1 / 2 →
    f.twofold.apply t = f.inwards.apply (2 * t) / 2
  /-- Each curve follows its pieces, and these meet at the breaks, so that it has no jump. -/
  joined : ∀ e p, Algebraic e p → (∀ t : Rat, e.apply t = p.value t) ∧ p.Joined
    ∧ Continuous (e.apply : Rat → Rat)
  /-- Each curve goes from 0 to 1. -/
  ends : ∀ e p, Algebraic e p → e.apply (0 : Rat) = 0 ∧ e.apply (1 : Rat) = 1
  /-- Each curve but the back curves stays in the unit interval. -/
  within : ∀ e p, Algebraic e p → e ∉ [backIn, backOut, backInOut] →
    ∀ t : Rat, 0 ≤ t → t ≤ 1 → 0 ≤ e.apply t ∧ e.apply t ≤ 1

/-- The curves that are made of polynomials are consistent, whatever is taken for the functions
that the other curves are made of. -/
theorem curves_consistent : Consistent where
  outwards f t := by
    rw [f.apply_outwards, f.apply_inwards, Pieces.value_turned f.regular_slow.joined]
  twofold f t := by
    rw [f.apply_twofold, f.apply_twofold]
    exact f.regular_wide.value_twofold t
  half f hback t ht := by
    rw [f.apply_twofold_of_lt ht, f.apply_inwards, Family.wide_eq_slow hback]
  joined e p h := by
    have hvalue : (e.apply : Rat → Rat) = p.value := funext h.apply_eq
    refine ⟨h.apply_eq, h.regular.joined, ?_⟩
    rw [hvalue]
    exact Pieces.continuous_value h.regular.joined h.regular.smooth
  ends e p h := by
    rw [h.apply_eq, h.apply_eq]
    exact ⟨h.regular.value_zero, h.regular.value_one⟩
  within e p h hback t ht ht' := by
    rw [h.apply_eq]
    exact h.bounded hback t ht ht'

end Easing

end Storyboard
