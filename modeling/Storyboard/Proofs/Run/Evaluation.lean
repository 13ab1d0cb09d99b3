/-
Evaluating a run reaches for the step under way, and that takes a step to be there. A run of two
or more values has one whatever its times are, and its number, cut off at that of the last step,
has a value on both sides (`underWay_of_steps`). So only a run of one value can be at fault, where
neither its start nor its end says that the value is held (`evaluateAlong_of_no_steps`).

In stored numbers this does happen. The end of such a run is its start plus no steps, but an
infinite or undefined step, taken no times, is undefined, and so is the end then; a time that is
undefined is neither before the start nor after the end (`evaluate_cases`).
-/
import Storyboard.Proofs.Number.Zero
import Storyboard.Run

namespace Storyboard

namespace Run

theorem steps_eq_zero_iff {α : Type} {r : Run α} (hvalues : r.values ≠ []) :
    r.steps = 0 ↔ r.values.length = 1 := by
  have hpos : 0 < r.values.length := List.length_pos_iff.2 hvalues
  unfold steps
  omega

section

variable {α : Type} [Scalar α] {r : Run α} {curve : α → α} {t : α} {v w : Value α}

theorem valueAlong_of_ok {result : Option (Value α)} (h : r.evaluateAlong curve t = .ok result) :
    r.valueAlong curve t = result := by
  rw [valueAlong, h]
  rfl

theorem evaluateAlong_of_nil (h : r.values = []) : r.evaluateAlong curve t = .ok none := by
  unfold evaluateAlong
  rw [h]
  rfl

/-- A run that has values is held at an end or has a step under way. -/
theorem evaluateAlong_eq (curve : α → α) (t : α) (hvalues : r.values ≠ []) :
    r.evaluateAlong curve t =
      if t ≤ r.start then .ok r.values.head?
      else if r.stop ≤ t ∨ r.step ≤ 0 then .ok r.values.getLast?
      else some <$> r.underWay curve t := by
  unfold evaluateAlong
  rw [List.head?_eq_some_head hvalues, List.getLast?_eq_some_getLast hvalues]

/-- Until the start a run has its first value. -/
theorem evaluateAlong_of_le_start (hvalues : r.values ≠ []) (ht : t ≤ r.start) :
    r.evaluateAlong curve t = .ok r.values.head? := by
  rw [evaluateAlong_eq curve t hvalues, if_pos ht]

/-- From the end on a run has its last value. -/
theorem evaluateAlong_of_over (hvalues : r.values ≠ []) (hstart : ¬t ≤ r.start)
    (hover : r.stop ≤ t ∨ r.step ≤ 0) : r.evaluateAlong curve t = .ok r.values.getLast? := by
  rw [evaluateAlong_eq curve t hvalues, if_neg hstart, if_pos hover]

/-- Between its ends a run has the value of the step under way. -/
theorem evaluateAlong_of_between (hvalues : r.values ≠ []) (hstart : ¬t ≤ r.start)
    (hunder : ¬(r.stop ≤ t ∨ r.step ≤ 0)) :
    r.evaluateAlong curve t = some <$> r.underWay curve t := by
  rw [evaluateAlong_eq curve t hvalues, if_neg hstart, if_neg hunder]

/-- On a step that has a value on both sides there is one. -/
theorem valueOn_eq_ok {elapsed : α} {i : Nat} (hv : r.values[i]? = some v)
    (hw : r.values[i + 1]? = some w) :
    r.valueOn curve elapsed i = .ok (v.lerp w (curve (elapsed - Scalar.ofNat i))) := by
  unfold valueOn value
  rw [hv, hw]
  rfl

/-- Of a run that has steps one is under way. -/
theorem underWay_of_steps (curve : α → α) (t : α) (hsteps : r.steps ≠ 0) :
    ∃ i v w, i = min (Scalar.reading ((t - r.start) / r.step)).whole (r.steps - 1)
      ∧ r.values[i]? = some v ∧ r.values[i + 1]? = some w
      ∧ r.underWay curve t
        = .ok (v.lerp w (curve ((t - r.start) / r.step - Scalar.ofNat i))) := by
  have hlength : r.steps = r.values.length - 1 := rfl
  have hlast : r.lastStep = .ok (r.steps - 1) := if_neg hsteps
  obtain ⟨i, hi⟩ : ∃ i, i = min (Scalar.reading ((t - r.start) / r.step)).whole (r.steps - 1) :=
    ⟨_, rfl⟩
  -- the last step still has a value after it
  have hlt : i + 1 < r.values.length := by omega
  have hv : r.values[i]? = some r.values[i] := List.getElem?_eq_getElem (Nat.lt_of_succ_lt hlt)
  have hw : r.values[i + 1]? = some r.values[i + 1] := List.getElem?_eq_getElem hlt
  refine ⟨i, _, _, hi, hv, hw, ?_⟩
  rw [← valueOn_eq_ok hv hw, hi, underWay, hlast]
  rfl

/-- Of a run that has no steps none is, and looking for it is at fault. -/
theorem underWay_of_no_steps (hsteps : r.steps = 0) :
    r.underWay curve t = .error .noSteps := by
  have hlast : r.lastStep = .error .noSteps := if_pos hsteps
  rw [underWay, hlast]
  rfl

/-- Between its ends a run that has no steps is at fault. -/
theorem evaluateAlong_of_no_steps (hvalues : r.values ≠ []) (hsteps : r.steps = 0)
    (hstart : ¬t ≤ r.start) (hunder : ¬(r.stop ≤ t ∨ r.step ≤ 0)) :
    r.evaluateAlong curve t = .error .noSteps := by
  rw [evaluateAlong_of_between hvalues hstart hunder, underWay_of_no_steps hsteps]
  rfl

/-- A run that has values has one wherever it is held at an end or has steps to be on. -/
theorem exists_value (curve : α → α) (hvalues : r.values ≠ [])
    (h : r.steps ≠ 0 ∨ t ≤ r.start ∨ r.stop ≤ t ∨ r.step ≤ 0) :
    ∃ v, r.evaluateAlong curve t = .ok (some v) := by
  by_cases hstart : t ≤ r.start
  · rw [evaluateAlong_of_le_start hvalues hstart, List.head?_eq_some_head hvalues]
    exact ⟨_, rfl⟩
  by_cases hover : r.stop ≤ t ∨ r.step ≤ 0
  · rw [evaluateAlong_of_over hvalues hstart hover, List.getLast?_eq_some_getLast hvalues]
    exact ⟨_, rfl⟩
  · have hsteps : r.steps ≠ 0 := h.resolve_right (not_or.2 ⟨hstart, hover⟩)
    obtain ⟨i, v, w, -, -, -, hvalue⟩ := underWay_of_steps curve t hsteps
    rw [evaluateAlong_of_between hvalues hstart hover, hvalue]
    exact ⟨_, rfl⟩

end

-- ==================================================== stored numbers

/-- A run of one value that is held at neither end: the time, the start or the end is undefined.
The end is where the step is not finite. -/
structure Stranded (r : Run Float) (t : Float) : Prop where
  single : r.values.length = 1
  step : ¬r.step ≤ 0
  start : ¬t ≤ r.start
  undefined : Scalar.reading t = .nan ∨ Scalar.reading r.start = .nan
    ∨ (Scalar.reading r.step).isFinite = false

variable {r : Run Float} {t : Float}

/-- A run without steps ends where it starts if its step is finite, and nowhere if it is not. -/
theorem stop_le_iff (hsteps : r.steps = 0) :
    r.stop ≤ t ↔ (Scalar.reading r.step).isFinite = true ∧ r.start ≤ t := by
  have hstop : r.stop = r.start + r.step * Scalar.ofNat 0 := by rw [stop, hsteps, startOf]
  rw [hstop]
  cases hfinite : (Scalar.reading r.step).isFinite with
  | true =>
      obtain ⟨s, hzero⟩ := Binary.unpack_mul_zero hfinite
      rw [Binary.add_le_iff hzero]
      exact (and_iff_right rfl).symm
  | false =>
      have hnan := Binary.reading_add_of_nan (Binary.reading_mul_zero hfinite) r.start
      exact iff_of_false (Binary.not_le_of_nan_left hnan) fun h => Bool.false_ne_true h.1

/-- Those are the runs that reach for a step without having one. -/
theorem stranded_iff : r.Stranded t ↔
    r.values ≠ [] ∧ r.steps = 0 ∧ ¬t ≤ r.start ∧ ¬(r.stop ≤ t ∨ r.step ≤ 0) := by
  constructor
  · rintro ⟨hsingle, hstep, hstart, hundefined⟩
    have hvalues : r.values ≠ [] := List.ne_nil_of_length_eq_add_one hsingle
    have hsteps := (steps_eq_zero_iff hvalues).2 hsingle
    refine ⟨hvalues, hsteps, hstart, not_or.2 ⟨fun hover => ?_, hstep⟩⟩
    obtain ⟨hfinite, hle⟩ := (stop_le_iff hsteps).1 hover
    rcases hundefined with ht | hs | hs
    · exact Binary.not_le_of_nan_right ht hle
    · exact Binary.not_le_of_nan_left hs hle
    · exact Bool.false_ne_true (hs.symm.trans hfinite)
  · rintro ⟨hvalues, hsteps, hstart, hunder⟩
    rw [not_or, stop_le_iff hsteps] at hunder
    refine ⟨(steps_eq_zero_iff hvalues).1 hsteps, hunder.2, hstart, ?_⟩
    cases hfinite : (Scalar.reading r.step).isFinite with
    | true =>
        have hnot : ¬r.start ≤ t := fun hle => hunder.1 ⟨hfinite, hle⟩
        exact (Binary.nan_of_not_le hstart hnot).imp_right Or.inl
    | false => exact Or.inr (Or.inr rfl)

/-- A run has no value at a time if and only if it has none at all. If it has some, it comes to a
value at every time except where it is stranded, and there it reaches for the last of its steps,
of which it has none. It never reaches for a value that it does not have. -/
theorem evaluate_cases (r : Run Float) (t : Float) :
    (r.evaluate t = .ok none ↔ r.values = [])
      ∧ ((∃ v, r.evaluate t = .ok (some v)) ↔ r.values ≠ [] ∧ ¬r.Stranded t)
      ∧ ∀ f, r.evaluate t = .error f ↔ f = .noSteps ∧ r.Stranded t := by
  unfold evaluate
  by_cases hvalues : r.values = []
  · have hnot : ¬r.Stranded t := fun h => (stranded_iff.1 h).1 hvalues
    rw [evaluateAlong_of_nil hvalues]
    simp [hvalues, hnot]
  by_cases hstranded : r.Stranded t
  · obtain ⟨-, hsteps, hstart, hunder⟩ := stranded_iff.1 hstranded
    rw [evaluateAlong_of_no_steps hvalues hsteps hstart hunder]
    simp [hvalues, hstranded, eq_comm]
  · have hheld : r.steps ≠ 0 ∨ t ≤ r.start ∨ r.stop ≤ t ∨ r.step ≤ 0 := by
      by_contra hnot
      rw [not_or, not_or, not_not] at hnot
      exact hstranded (stranded_iff.2 ⟨hvalues, hnot⟩)
    obtain ⟨v, hv⟩ := exists_value r.easing.apply hvalues hheld
    rw [hv]
    simp [hvalues, hstranded]

/-- A run of one value with an infinite step, at a time after its start. -/
theorem evaluate_endless :
    let r : Run Float := ⟨.fade, .linear, 0, 1 / 0, [.scalar 1]⟩
    r.values ≠ [] ∧ r.evaluate 50 = .error .noSteps :=
  ⟨List.cons_ne_nil _ _, by decide +kernel⟩

end Run

end Storyboard
