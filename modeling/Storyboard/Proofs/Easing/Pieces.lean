/-
Curves in pieces. A curve is given by formulas, and by breaks at which one formula takes over
from another. If both have the same value at each break (`Pieces.Joined`), it does not matter to
which of them a break belongs, and a curve of continuous formulas is continuous.

From one curve others are made: turned round, so that it ends as the first one starts, and
twofold, once small as it is and once small and turned round. Both ways keep what a curve should
be (`Pieces.Regular`), so that of a family of curves only the first needs to be looked at.
-/
import Mathlib

namespace Storyboard

/-- A curve in pieces: a formula, or what lies before a break and what lies from it on. -/
inductive Pieces where
  | formula (f : Rat → Rat)
  | broken (place : Rat) (before after : Pieces)

namespace Pieces

/-- The value of the curve. -/
def value : Pieces → Rat → Rat
  | formula f, t => f t
  | broken place before after, t => if t < place then before.value t else after.value t

/-- At each break the pieces on both sides of it have the same value. -/
def Joined : Pieces → Prop
  | formula _ => True
  | broken place before after =>
    before.value place = after.value place ∧ before.Joined ∧ after.Joined

/-- All formulas of the curve are continuous. -/
def Smooth : Pieces → Prop
  | formula f => Continuous f
  | broken _ before after => before.Smooth ∧ after.Smooth

variable {p before after : Pieces} {place t : Rat}

-- ============================================================ breaks

/-- Before a break the first part of a curve counts. -/
theorem value_of_lt (h : t < place) : (broken place before after).value t = before.value t :=
  if_pos h

/-- From the break on the second part counts. -/
theorem value_of_le (h : place ≤ t) : (broken place before after).value t = after.value t :=
  if_neg h.not_gt

/-- The piece before a break can be followed up to the break. -/
theorem value_before (hjoined : (broken place before after).Joined) (h : t ≤ place) :
    (broken place before after).value t = before.value t := by
  rcases h.lt_or_eq with h | rfl
  · exact value_of_lt h
  · rw [value_of_le le_rfl]
    exact hjoined.1.symm

/-- A curve whose pieces are joined is continuous, if its formulas are. -/
theorem continuous_value (hjoined : p.Joined) (hsmooth : p.Smooth) : Continuous p.value := by
  induction p with
  | formula f => exact hsmooth
  | broken place before after ihBefore ihAfter =>
      have hbefore := ihBefore hjoined.2.1 hsmooth.1
      have hafter := ihAfter hjoined.2.2 hsmooth.2
      -- Mathlib glues two functions at a closed set, so the test has to be turned round
      have hvalue : (broken place before after).value
          = fun t => if place ≤ t then after.value t else before.value t := by
        funext t
        by_cases h : place ≤ t
        · rw [value_of_le h, if_pos h]
        · rw [value_of_lt (not_le.1 h), if_neg h]
      rw [hvalue]
      refine hafter.if_le hbefore continuous_const continuous_id fun t ht => ?_
      rw [← ht]
      exact hjoined.1.symm

-- ====================================================== turned round

/-- The curve turned round about the middle of the unit square. -/
def turned : Pieces → Pieces
  | formula f => formula fun t => 1 - f (1 - t)
  | broken place before after => broken (1 - place) after.turned before.turned

/-- The turned curve is the curve as it is seen from the other corner. -/
theorem value_turned (hjoined : p.Joined) (t : Rat) : p.turned.value t = 1 - p.value (1 - t) := by
  induction p with
  | formula f => rfl
  | broken place before after ihBefore ihAfter =>
      rw [turned]
      rcases lt_or_ge t (1 - place) with h | h
      · rw [value_of_lt h, value_of_le (by linarith), ihAfter hjoined.2.2]
      · -- a break belongs to the other side now
        rw [value_of_le h, value_before hjoined (by linarith), ihBefore hjoined.2.1]

/-- Pieces that meet still do when the curve is turned round. -/
theorem Joined.turned (hjoined : p.Joined) : p.turned.Joined := by
  induction p with
  | formula f => trivial
  | broken place before after ihBefore ihAfter =>
      refine ⟨?_, ihAfter hjoined.2.2, ihBefore hjoined.2.1⟩
      rw [value_turned hjoined.2.2, value_turned hjoined.2.1, sub_sub_cancel, hjoined.1]

theorem Smooth.turned (hsmooth : p.Smooth) : p.turned.Smooth := by
  induction p with
  | formula f =>
      have hf : Continuous f := hsmooth
      show Continuous fun t => 1 - f (1 - t)
      fun_prop
  | broken place before after ihBefore ihAfter =>
      exact ⟨ihAfter hsmooth.2, ihBefore hsmooth.1⟩

-- =========================================================== twofold

/-- The curve at half its size. -/
def halved : Pieces → Pieces
  | formula f => formula fun t => f (2 * t) / 2
  | broken place before after => broken (place / 2) before.halved after.halved

/-- At half its size a curve takes half the time and goes half as far. -/
theorem value_halved (p : Pieces) (t : Rat) : p.halved.value t = p.value (2 * t) / 2 := by
  induction p with
  | formula f => rfl
  | broken place before after ihBefore ihAfter =>
      rw [halved]
      rcases lt_or_ge t (place / 2) with h | h
      · rw [value_of_lt h, value_of_lt (by linarith), ihBefore]
      · rw [value_of_le h, value_of_le (by linarith), ihAfter]

/-- Pieces that meet still do at half their size. -/
theorem Joined.halved (hjoined : p.Joined) : p.halved.Joined := by
  induction p with
  | formula f => trivial
  | broken place before after ihBefore ihAfter =>
      refine ⟨?_, ihBefore hjoined.2.1, ihAfter hjoined.2.2⟩
      rw [value_halved, value_halved, mul_div_cancel₀ place two_ne_zero, hjoined.1]

theorem Smooth.halved (hsmooth : p.Smooth) : p.halved.Smooth := by
  induction p with
  | formula f =>
      have hf : Continuous f := hsmooth
      show Continuous fun t => f (2 * t) / 2
      fun_prop
  | broken place before after ihBefore ihAfter =>
      exact ⟨ihBefore hsmooth.1, ihAfter hsmooth.2⟩

/-- The curve at half its size, and then the same turned round. -/
def twofold (p : Pieces) : Pieces := broken (1 / 2) p.halved p.halved.turned

-- =========================================================== regular

/-- A curve as it should be: it goes from 0 to 1 without a jump. -/
structure Regular (p : Pieces) : Prop where
  joined : p.Joined
  smooth : p.Smooth
  value_zero : p.value 0 = 0
  value_one : p.value 1 = 1

namespace Regular

/-- A curve that is as it should be can be turned round. -/
theorem turned (h : p.Regular) : p.turned.Regular where
  joined := h.joined.turned
  smooth := h.smooth.turned
  value_zero := by rw [value_turned h.joined, sub_zero, h.value_one, sub_self]
  value_one := by rw [value_turned h.joined, sub_self, h.value_zero, sub_zero]

/-- In the middle the two copies of a twofold curve meet. -/
theorem joined_twofold (h : p.Regular) : p.twofold.Joined := by
  have hmiddle : p.halved.value (1 / 2) = 1 / 2 := by
    rw [value_halved, mul_one_div_cancel two_ne_zero, h.value_one]
  refine ⟨?_, h.joined.halved, h.joined.halved.turned⟩
  rw [value_turned h.joined.halved, sub_half, hmiddle, sub_half]

/-- Up to the middle, the middle included, a twofold curve is the curve at half its size. -/
theorem value_twofold_of_le (h : p.Regular) (ht : t ≤ 1 / 2) :
    p.twofold.value t = p.value (2 * t) / 2 := by
  rw [twofold, value_before h.joined_twofold ht, value_halved]

/-- From the middle on it is that turned round. -/
theorem value_twofold_of_ge (h : p.Regular) (ht : 1 / 2 ≤ t) :
    p.twofold.value t = 1 - p.value (2 * (1 - t)) / 2 := by
  rw [twofold, value_of_le ht, value_turned h.joined.halved, value_halved]

/-- A twofold curve stays as it is when it is turned round. -/
theorem value_twofold (h : p.Regular) (t : Rat) :
    p.twofold.value t = 1 - p.twofold.value (1 - t) := by
  rcases le_total t (1 / 2) with ht | ht
  · rw [h.value_twofold_of_le ht, h.value_twofold_of_ge (by linarith), sub_sub_cancel,
      sub_sub_cancel]
  · rw [h.value_twofold_of_ge ht, h.value_twofold_of_le (by linarith)]

/-- A curve that is as it should be can be doubled. -/
theorem twofold (h : p.Regular) : p.twofold.Regular := by
  have hzero : p.twofold.value 0 = 0 := by
    rw [h.value_twofold_of_le (by norm_num), mul_zero, h.value_zero, zero_div]
  refine ⟨h.joined_twofold, ⟨h.smooth.halved, h.smooth.halved.turned⟩, hzero, ?_⟩
  rw [h.value_twofold, sub_self, hzero, sub_zero]

end Regular

-- ================================================== the unit interval

/-- The curve does not leave the unit interval over the unit interval. -/
def Bounded (p : Pieces) : Prop := ∀ t, 0 ≤ t → t ≤ 1 → 0 ≤ p.value t ∧ p.value t ≤ 1

/-- Turning a curve round does not take it out of the unit interval. -/
theorem Bounded.turned (hjoined : p.Joined) (h : p.Bounded) : p.turned.Bounded := by
  intro t ht ht'
  obtain ⟨hlow, hhigh⟩ := h (1 - t) (by linarith) (by linarith)
  rw [value_turned hjoined]
  exact ⟨by linarith, by linarith⟩

/-- Nor does doubling it. -/
theorem Bounded.twofold (hregular : p.Regular) (h : p.Bounded) : p.twofold.Bounded := by
  have hearlier : ∀ t, 0 ≤ t → t ≤ 1 / 2 → 0 ≤ p.twofold.value t ∧ p.twofold.value t ≤ 1 := by
    intro t ht ht'
    obtain ⟨hlow, hhigh⟩ := h (2 * t) (by linarith) (by linarith)
    rw [hregular.value_twofold_of_le ht']
    exact ⟨by linarith, by linarith⟩
  intro t ht ht'
  rcases le_total t (1 / 2) with h' | h'
  · exact hearlier t ht h'
  · -- the later half is the earlier one turned round
    obtain ⟨hlow, hhigh⟩ := hearlier (1 - t) (by linarith) (by linarith)
    rw [hregular.value_twofold]
    exact ⟨by linarith, by linarith⟩

end Pieces

end Storyboard
