/-
The value of a run, in exact numbers. While one of its steps is under way a run
has the value of that step, taken as a command of its own; before the first and
after the last step the ends of the run take over, which are the ends of these
steps (`valueAlong_of_step`). The curve only has to start at 0.

Steps are counted in words. A run of more steps than a word can count would not
find the later ones; there is no list that long.
-/
import Mathlib
import Storyboard.Number.Exact
import Storyboard.Proofs.Run.Evaluation

namespace Storyboard

namespace Value

variable {v w : Value Rat}

/-- At the start of the way there is the first value, whatever the other one. -/
theorem lerp_zero : v.lerp w 0 = v := by
  cases v <;> cases w <;> simp [lerp, mix]

end Value

namespace Run

variable {r : Run Rat} {i : Nat} {t : Rat} {v w : Value Rat}

/-- A step of a run, from one value to another, as a command. -/
def stepEvent (r : Run Rat) (i : Nat) (v w : Value Rat) : Event Rat :=
  ⟨r.kind, r.easing, r.startOf i, r.startOf i + r.step, some (v, w)⟩

@[simp] theorem startOf_zero : r.startOf 0 = r.start := by simp [startOf, Scalar.ofNat]

/-- Each step starts where the one before it ends. -/
theorem startOf_succ : r.startOf (i + 1) = r.startOf i + r.step := by
  simp only [startOf, Scalar.ofNat]
  push_cast
  ring

/-- Steps start in order. -/
theorem startOf_le_startOf (hstep : 0 < r.step) {k : Nat} (h : i ≤ k) :
    r.startOf i ≤ r.startOf k := by
  simp only [startOf, Scalar.ofNat]
  have : (i : Rat) ≤ k := Nat.cast_le.2 h
  nlinarith

/-- Different steps start at different times. -/
theorem startOf_lt_startOf (hstep : 0 < r.step) {k : Nat} (h : i < k) :
    r.startOf i < r.startOf k := by
  have hle : r.startOf (i + 1) ≤ r.startOf k := startOf_le_startOf hstep h
  rw [startOf_succ] at hle
  linarith

/-- How much of the run has passed, counted in steps. -/
theorem elapsed_eq (hstep : 0 < r.step) :
    (t - r.start) / r.step = i + (t - r.startOf i) / r.step := by
  have hne : r.step ≠ 0 := hstep.ne'
  simp only [startOf, Scalar.ofNat]
  field_simp
  ring

/-- The step under way is found by counting, as long as a word can count that
far. -/
theorem whole_elapsed (hstep : 0 < r.step) (hstarted : r.startOf i ≤ t)
    (hnext : t < r.startOf (i + 1)) (hword : i < 2 ^ 64) :
    (Scalar.reading ((t - r.start) / r.step)).whole = i := by
  have hpart : 0 ≤ (t - r.startOf i) / r.step := div_nonneg (by linarith) hstep.le
  have hpart' : (t - r.startOf i) / r.step < 1 := by
    rw [div_lt_one hstep]
    rw [startOf_succ] at hnext
    linarith
  have hfloor : ((t - r.start) / r.step).floor = i := by
    rw [elapsed_eq (i := i) hstep]
    refine le_antisymm (Int.lt_add_one_iff.1 (Rat.floor_lt_iff.2 ?_)) (Rat.le_floor_iff.2 ?_)
    · simpa using hpart'
    · simpa using hpart
  show min ((t - r.start) / r.step).floor.toNat Reading.greatestWord = i
  rw [hfloor]
  unfold Reading.greatestWord
  omega

-- ======================================================= the value

variable {curve : Rat → Rat}

/-- Until the start a run has its first value. -/
theorem valueAlong_of_le_start (hsome : (r.values.getLast?).isSome = true) (ht : t ≤ r.start) :
    r.valueAlong curve t = r.values.head? :=
  valueAlong_of_ok (evaluateAlong_of_le_start (List.getLast?_isSome.1 hsome) ht)

/-- From the end on it has its last value. -/
theorem valueAlong_of_stop_le (hsome : (r.values.head?).isSome = true) (hstart : ¬t ≤ r.start)
    (ht : r.stop ≤ t) : r.valueAlong curve t = r.values.getLast? :=
  valueAlong_of_ok (evaluateAlong_of_over (List.isSome_head?.1 hsome) hstart (Or.inl ht))

/-- Under way a run is at the part of its step that has passed. -/
theorem valueAlong_of_between (hstep : 0 < r.step) (hv : r.values[i]? = some v)
    (hw : r.values[i + 1]? = some w) (hword : i < 2 ^ 64) (hstart : ¬t ≤ r.start)
    (hstarted : r.startOf i ≤ t) (hnext : t < r.startOf (i + 1)) (hstop : ¬r.stop ≤ t) :
    r.valueAlong curve t = some (v.lerp w (curve ((t - r.startOf i) / r.step))) := by
  have hlt : i + 1 < r.values.length := (List.getElem?_eq_some_iff.1 hw).1
  have hsteps : r.steps = r.values.length - 1 := rfl
  have hcount : min (Scalar.reading ((t - r.start) / r.step)).whole (r.steps - 1) = i := by
    rw [whole_elapsed hstep hstarted hnext hword]
    omega
  have hpart : (t - r.start) / r.step - Scalar.ofNat i = (t - r.startOf i) / r.step := by
    rw [elapsed_eq (i := i) hstep]
    exact add_sub_cancel_left ..
  have hunder : ¬(r.stop ≤ t ∨ r.step ≤ 0) := by
    rw [not_or, not_le]
    exact ⟨not_le.1 hstop, not_le.2 hstep⟩
  obtain ⟨j, v', w', hj, hv', hw', hvalue⟩ := underWay_of_steps curve t (r := r) (by omega)
  obtain rfl : j = i := hj.trans hcount
  obtain rfl : v' = v := Option.some.inj (hv'.symm.trans hv)
  obtain rfl : w' = w := Option.some.inj (hw'.symm.trans hw)
  have hvalues : r.values ≠ [] := List.ne_nil_of_length_pos (Nat.zero_lt_of_lt hlt)
  rw [valueAlong, evaluateAlong_of_between hvalues hstart hunder, hvalue, hpart]
  rfl

/-- While a step of a run is under way, or is the last one, the run has the value
of the step. -/
theorem valueAlong_of_step (hstep : 0 < r.step) (hcurve : curve 0 = 0)
    (hv : r.values[i]? = some v) (hw : r.values[i + 1]? = some w) (hword : i < 2 ^ 64)
    (hstarted : r.startOf i ≤ t) (hnext : i + 1 < r.steps → t < r.startOf (i + 1)) :
    r.valueAlong curve t = (r.stepEvent i v w).valueAlong curve t := by
  have hlt : i + 1 < r.values.length := (List.getElem?_eq_some_iff.1 hw).1
  have hsteps : r.steps = r.values.length - 1 := rfl
  have hne : r.values ≠ [] := List.ne_nil_of_length_pos (Nat.zero_lt_of_lt hlt)
  have hsucc : r.startOf (i + 1) = r.startOf i + r.step := startOf_succ
  have hduration : (r.stepEvent i v w).duration = r.step := add_sub_cancel_left ..
  show _ = some (if t ≤ r.startOf i then v else if r.startOf i + r.step ≤ t then w
    else v.lerp w (curve ((t - r.startOf i) / (r.stepEvent i v w).duration)))
  rw [hduration]
  by_cases hbefore : t ≤ r.start
  · -- only the first step has started, and only just
    obtain rfl : i = 0 := by
      by_contra hi
      have hle : r.startOf 1 ≤ r.startOf i := startOf_le_startOf hstep (by omega)
      have hone : r.startOf 1 = r.start + r.step := by rw [startOf_succ, startOf_zero]
      linarith
    rw [valueAlong_of_le_start (List.getLast?_isSome.2 hne) hbefore, List.head?_eq_getElem?, hv,
      startOf_zero, if_pos hbefore]
  by_cases hover : r.stop ≤ t
  · -- the last step is over
    have hi : i + 1 = r.steps := by
      by_contra hi
      have hle : r.startOf (i + 1) ≤ r.stop := startOf_le_startOf hstep (by omega)
      have := hnext (by omega)
      linarith
    have hend : r.startOf (i + 1) ≤ t := by
      rw [hi]
      exact hover
    have hlast : r.values.length - 1 = i + 1 := by omega
    rw [valueAlong_of_stop_le (List.isSome_head?.2 hne) hbefore hover, List.getLast?_eq_getElem?,
      hlast, hw, if_neg (by linarith), if_pos (by linarith)]
  · -- the step is under way
    have hnext' : t < r.startOf (i + 1) := by
      by_cases hi : i + 1 < r.steps
      · exact hnext hi
      · obtain hi : i + 1 = r.steps := by omega
        rw [hi]
        exact not_le.1 hover
    rw [valueAlong_of_between hstep hv hw hword hbefore hstarted hnext' hover]
    -- at the start of the step the command holds its first value, and the curve starts there
    by_cases hnow : t ≤ r.startOf i
    · have heq : t - r.startOf i = 0 := sub_eq_zero.2 (le_antisymm hnow hstarted)
      rw [if_pos hnow, heq, zero_div, hcurve, Value.lerp_zero]
    · rw [if_neg hnow, if_neg (by linarith)]

end Run

end Storyboard
