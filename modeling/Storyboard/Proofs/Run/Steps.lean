/-
The steps of a run as commands of their own. A run whose steps take some time and whose values
have the components of its kind expands to one command for each step (`Run.expand_eq`), and these
start one after the other.

A run tells its value at a time by counting steps; its commands tell theirs by which of them
started last. Both find the same step at every time from the start of the run on, where steps meet
and after the last one included, so the run has the value of the command in force
(`Run.valueAlong_expand`).
-/
import Storyboard.Proofs.Event.WellFormed
import Storyboard.Proofs.Run.Value
import Storyboard.Proofs.Sampling.InForce
import Storyboard.Proofs.Traversal

namespace Storyboard

/-- A value has one component at least. -/
theorem Value.arity_pos {α : Type} (v : Value α) : 0 < v.arity := by
  cases v <;> exact Nat.succ_pos _

/-- The pairs of neighbours in a list, by their places. -/
theorem getElem?_zip_tail {β : Type} {xs : List β} {i : Nat} {x y : β} :
    (xs.zip xs.tail)[i]? = some (x, y) ↔ xs[i]? = some x ∧ xs[i + 1]? = some y := by
  rw [List.getElem?_zip_eq_some, List.getElem?_tail]

namespace Run

section

variable {α : Type} [Scalar α] {r : Run α}

/-- There is one draft for each step. -/
theorem length_drafts (r : Run α) : r.drafts.length = r.steps := by
  simp [drafts, steps]

/-- The draft of a step goes from the value there to the next one. -/
theorem getElem?_drafts {i : Nat} {v w : Value α} (hv : r.values[i]? = some v)
    (hw : r.values[i + 1]? = some w) :
    r.drafts[i]? = some (.change r.kind r.easing (r.startOf i) (some (r.startOf i + r.step))
      (some v) (some w)) := by
  unfold drafts
  rw [List.getElem?_mapIdx, getElem?_zip_tail.2 ⟨hv, hw⟩]
  rfl

end

variable {r : Run Rat} {i : Nat} {e : Event Rat} {t : Rat}

/-- A run whose steps take some time, through values that have the components of its kind. -/
structure Regular (r : Run Rat) : Prop where
  step : 0 < r.step
  arity : ∀ v ∈ r.values, v.arity = r.kind.arity

/-- The steps of a run, each as a command. -/
def commands (r : Run Rat) : List (Event Rat) :=
  (r.values.zip r.values.tail).mapIdx fun i (v, w) => r.stepEvent i v w

-- ========================================================= commands

/-- There is one command for each step. -/
@[simp] theorem length_commands (r : Run Rat) : r.commands.length = r.steps := by
  simp [commands, steps]

/-- The command of a step starts where the step does and goes from the value there to the next. -/
theorem getElem?_commands : r.commands[i]? = some e ↔
    ∃ v w, r.values[i]? = some v ∧ r.values[i + 1]? = some w ∧ e = r.stepEvent i v w := by
  unfold commands
  rw [List.getElem?_mapIdx, Option.map_eq_some_iff]
  constructor
  · rintro ⟨⟨v, w⟩, hpair, rfl⟩
    obtain ⟨hv, hw⟩ := getElem?_zip_tail.1 hpair
    exact ⟨v, w, hv, hw, rfl⟩
  · rintro ⟨v, w, hv, hw, rfl⟩
    exact ⟨(v, w), getElem?_zip_tail.2 ⟨hv, hw⟩, rfl⟩

/-- A command starts where its step does. -/
theorem start_of_getElem?_commands (h : r.commands[i]? = some e) : e.start = r.startOf i := by
  obtain ⟨v, w, -, -, rfl⟩ := getElem?_commands.1 h
  rfl

/-- Later steps start later. -/
theorem commands_increasing (hstep : 0 < r.step) :
    r.commands.Pairwise fun d e => d.start < e.start := by
  rw [List.pairwise_iff_getElem]
  intro i j hi hj hij
  rw [start_of_getElem?_commands (List.getElem?_eq_getElem hi),
    start_of_getElem?_commands (List.getElem?_eq_getElem hj)]
  exact startOf_lt_startOf hstep hij

-- ======================================================== expansion

/-- Flags have no values. -/
theorem Regular.isFlag_eq_false (h : r.Regular) {v : Value Rat} (hv : v ∈ r.values) :
    r.kind.isFlag = false := by
  rw [Bool.eq_false_iff, Ne, Kind.isFlag_iff_arity, ← h.arity v hv]
  exact v.arity_pos.ne'

/-- The step from one value of a regular run to another is a command that may be. -/
theorem Regular.wellFormed (h : r.Regular) {v w : Value Rat} (hv : v ∈ r.values)
    (hw : w ∈ r.values) : (r.stepEvent i v w).WellFormed where
  time := by
    show ¬r.startOf i + r.step < r.startOf i
    have hstep := h.step
    linarith
  values := ⟨h.isFlag_eq_false hv, h.arity v hv, h.arity w hw⟩

/-- The steps pass their checks as the commands that they are. -/
theorem Regular.check_drafts (h : r.Regular) :
    r.drafts.map Draft.check = r.commands.map .ok := by
  refine List.ext_getElem? fun i => ?_
  rw [List.getElem?_map, List.getElem?_map]
  cases he : r.commands[i]? with
  | none =>
      rw [List.getElem?_eq_none_iff, length_commands, ← length_drafts,
        ← List.getElem?_eq_none_iff] at he
      rw [he]
      rfl
  | some e =>
      obtain ⟨v, w, hv, hw, rfl⟩ := getElem?_commands.1 he
      rw [getElem?_drafts hv hw]
      have hfits := h.wellFormed (i := i) (List.mem_of_getElem? hv) (List.mem_of_getElem? hw)
      exact congrArg some (Draft.check_change hfits rfl)

/-- A regular run expands to its steps. -/
theorem expand_eq (h : r.Regular) : r.expand = .ok r.commands := mapM_eq_ok h.check_drafts

-- ============================================================ value

/-- From the start of the run on one of its commands is in force. -/
theorem exists_inForce_commands (hpos : 0 < r.steps) (ht : r.start ≤ t) :
    ∃ e, inForce Event.start t r.commands = some e := by
  rw [← length_commands] at hpos
  have hfirst := start_of_getElem?_commands (List.getElem?_eq_getElem hpos)
  rw [startOf_zero] at hfirst
  cases he : inForce Event.start t r.commands with
  | none => exact absurd (hfirst.trans_le ht) (inForce_eq_none_iff.1 he _ (List.getElem_mem hpos))
  | some e => exact ⟨e, rfl⟩

/-- It is a step that has started, and the step after it has not. -/
theorem step_of_inForce (hstep : 0 < r.step) (he : inForce Event.start t r.commands = some e) :
    ∃ i v w, r.values[i]? = some v ∧ r.values[i + 1]? = some w ∧ e = r.stepEvent i v w
      ∧ r.startOf i ≤ t ∧ (i + 1 < r.steps → t < r.startOf (i + 1)) := by
  obtain ⟨hmem, hstarted⟩ := mem_of_inForce he
  obtain ⟨i, hi⟩ := List.mem_iff_getElem?.1 hmem
  obtain ⟨v, w, hv, hw, rfl⟩ := getElem?_commands.1 hi
  refine ⟨i, v, w, hv, hw, rfl, hstarted, fun hlt => ?_⟩
  rw [← length_commands] at hlt
  have hnext := start_of_getElem?_commands (List.getElem?_eq_getElem hlt)
  -- if the step after it had started it would start no later
  by_contra hnot
  have hle : r.commands[i + 1].start ≤ r.startOf i :=
    start_le_of_inForce he (List.getElem_mem hlt) (hnext.trans_le (not_lt.1 hnot))
  rw [hnext] at hle
  exact absurd hle (not_le.2 (startOf_lt_startOf hstep (Nat.lt_succ_self i)))

/-- From its start on a run of two values or more has the value of that command among its steps
which started last. This holds along every curve that starts at 0. The steps are counted in words,
which no list in memory is too long for. -/
theorem valueAlong_expand (h : r.Regular) (htwo : 2 ≤ r.values.length)
    (hlength : r.values.length < 2 ^ 64) (ht : r.start ≤ t) :
    ∃ steps, r.expand = .ok steps ∧ ∃ e, inForce Event.start t steps = some e
      ∧ (∀ curve : Rat → Rat, curve 0 = 0 → r.valueAlong curve t = e.valueAlong curve t)
      ∧ ∀ [Elementary Rat], r.easing.apply (0 : Rat) = 0 → r.valueAt t = e.valueAt t := by
  have hpos : 0 < r.steps := Nat.sub_pos_of_lt htwo
  obtain ⟨e, he⟩ := exists_inForce_commands hpos ht
  obtain ⟨i, v, w, hv, hw, rfl, hstarted, hnext⟩ := step_of_inForce h.step he
  have hword : i < 2 ^ 64 := (List.getElem?_eq_some_iff.1 hv).1.trans hlength
  have halong : ∀ curve : Rat → Rat, curve 0 = 0 →
      r.valueAlong curve t = (r.stepEvent i v w).valueAlong curve t := fun curve hcurve =>
    valueAlong_of_step h.step hcurve hv hw hword hstarted hnext
  exact ⟨_, expand_eq h, _, he, halong, fun hcurve => halong _ hcurve⟩

/-- Two steps of a tenth of a millisecond. -/
def flicker : Run Rat := ⟨.fade, .quadIn, 1, 1 / 10, [.scalar 0, .scalar 1, .scalar 0]⟩

/-- Where its steps meet the second one is in force. -/
theorem valueAlong_expand_flicker :
    flicker.Regular ∧ 2 ≤ flicker.values.length ∧ flicker.values.length < 2 ^ 64
      ∧ flicker.start ≤ 11 / 10
      ∧ ∃ steps, flicker.expand = .ok steps ∧ ∃ e, inForce Event.start (11 / 10) steps = some e
        ∧ (∀ curve : Rat → Rat, curve 0 = 0 →
          flicker.valueAlong curve (11 / 10) = e.valueAlong curve (11 / 10))
        ∧ ∀ [Elementary Rat], flicker.easing.apply (0 : Rat) = 0 →
          flicker.valueAt (11 / 10) = e.valueAt (11 / 10) := by
  have hregular : flicker.Regular := ⟨by decide +kernel, by decide⟩
  have hstarted : flicker.start ≤ 11 / 10 := by decide +kernel
  exact ⟨hregular, by decide, by decide, hstarted,
    valueAlong_expand hregular (by decide) (by decide) hstarted⟩

end Run

end Storyboard
