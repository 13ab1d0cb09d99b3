/-
What the line of a chain shows. Its commands start at the steps of the run that
the chain is written as, the first one where the run starts and the last one
where its last step does. At any time the line has the value of the command of
the chain that has started last (`Chain.valueAt_line`).
-/
import Storyboard.Proofs.Chain.Links

namespace Storyboard

namespace Chain

variable {all : List (Event Rat)} {c : Chain Rat} {k : Kind} {e : Event Rat} {t : Rat}

-- =========================================================== starts

/-- A run has one step for each command of the chain. -/
theorem steps_run (h : Event.PreciseOf k all) (hc : c ∈ gather all)
    (hlater : c.later ≠ []) : c.run.steps = c.events.length := by
  have hpos : 0 < c.events.length := Nat.succ_pos _
  obtain ⟨_, w, -, -, hlast⟩ := step_of_getElem? h hc hlater
    (List.getElem?_eq_getElem (Nat.sub_lt hpos Nat.one_pos))
  have hge := (List.getElem?_eq_some_iff.1 hlast).1
  -- the run has a value for the start, and one for the end of each command
  have hle : c.run.values.length ≤ 1 + c.events.length := by
    have hfirst : c.head.first?.toList.length ≤ 1 := by
      cases c.head.first? <;> simp
    have hrest := List.length_filterMap_le Event.last? c.events
    show (c.head.first?.toList ++ c.events.filterMap Event.last?).length ≤ _
    rw [List.length_append]
    omega
  have hsteps : c.run.steps = c.run.values.length - 1 := rfl
  omega

/-- The last command of a chain is the last step of the run. -/
theorem start_tail (h : Event.PreciseOf k all) (hc : c ∈ gather all)
    (hlater : c.later ≠ []) : c.tail.start = c.run.startOf (c.run.steps - 1) := by
  have htail : c.events[c.events.length - 1]? = some c.tail := by
    rw [← List.getLast?_eq_getElem?, getLast?_events]
  rw [start_of_getElem? h hc hlater htail, steps_run h hc hlater]

/-- The later commands of a chain start at the second step of the run or after,
and no later than the last one. -/
theorem start_later (h : Event.PreciseOf k all) (hc : c ∈ gather all)
    (he : e ∈ c.later) : c.run.startOf 1 ≤ e.start ∧ e.start ≤ c.tail.start := by
  have hlater : c.later ≠ [] := List.ne_nil_of_mem he
  obtain ⟨i, hi, hget⟩ := List.mem_iff_getElem.1 (List.mem_reverse.2 he)
  have hget' : c.events[i + 1]? = some e := by
    unfold events
    rw [List.getElem?_cons_succ, List.getElem?_eq_getElem hi, hget]
  have hpositive := step_pos h hc hlater
  have hbound := (List.getElem?_eq_some_iff.1 hget').1
  rw [start_of_getElem? h hc hlater hget', start_tail h hc hlater, steps_run h hc hlater]
  exact ⟨Run.startOf_le_startOf hpositive (Nat.le_add_left 1 i),
    Run.startOf_le_startOf hpositive (Nat.le_sub_one_of_lt hbound)⟩

-- =========================================================== values

/-- The line of a chain has the value of the command that has started last. -/
theorem valueAt_line [Elementary Rat] (h : Event.PreciseOf k all)
    (hlinear : ∀ e ∈ all, e.easing = .linear) (hlength : all.length < 2 ^ 64)
    (hc : c ∈ gather all) (he : e ∈ c.events) (hstarted : e.start ≤ t)
    (hlast : ∀ e' ∈ c.events, e'.start ≤ t → e'.start ≤ e.start) :
    c.line.valueAt t = e.valueAt t := by
  rw [line_eq]
  by_cases hlater : c.later = []
  · obtain rfl : e = c.head := by simpa [events, hlater] using he
    rw [if_pos hlater]
    rfl
  rw [if_neg hlater]
  obtain ⟨i, hi, hget⟩ := List.mem_iff_getElem.1 he
  have hget' : c.events[i]? = some e := by rw [List.getElem?_eq_getElem hi, hget]
  obtain ⟨v, w, hvalues, hv, hw⟩ := step_of_getElem? h hc hlater hget'
  have hstart := start_of_getElem? h hc hlater hget'
  have hpositive := step_pos h hc hlater
  have heasing : ∀ e' ∈ c.events, e'.easing = .linear := fun e' he' =>
    hlinear e' (mem_gather_iff.1 ⟨c, hc, he'⟩)
  have hrun : c.run.easing = .linear := heasing c.head List.mem_cons_self
  -- the step after it would be a command that has started later
  have hnext : i + 1 < c.run.steps → t < c.run.startOf (i + 1) := by
    intro hsteps
    rw [steps_run h hc hlater] at hsteps
    have hstart' := start_of_getElem? h hc hlater (List.getElem?_eq_getElem hsteps)
    by_contra hnot
    have hle := hlast _ (List.getElem_mem hsteps) (by rw [hstart']; exact not_lt.1 hnot)
    rw [hstart', hstart, Run.startOf_succ] at hle
    linarith
  have hword : i < 2 ^ 64 := (hi.trans_le (length_events_le hc)).trans hlength
  show c.run.valueAlong c.run.easing.apply t = e.valueAlong e.easing.apply t
  rw [hrun, heasing e he, Run.valueAlong_of_step hpositive rfl hv hw hword
    (hstart.symm.trans_le hstarted) hnext]
  unfold Event.valueAlong Event.duration
  rw [hvalues, stop_eq h hc hlater he, hstart]
  rfl

end Chain

end Storyboard
