/-
Compaction recovers runs. The commands of a run have one pace, start one after the other, and each
leads to the next (`Run.commands_isChain`). So they are one chain, however short the steps are: a
step that ends near the start of several later ones is only ever asked about the next one. Sorting
puts the commands in order, whatever order they are given in, and the line of their chain is the
run (`Run.compact_of_perm_expand`).
-/
import Storyboard.Proofs.Chain.Places
import Storyboard.Proofs.Chain.Stretches
import Storyboard.Proofs.Compaction
import Storyboard.Proofs.Run.Steps

namespace Storyboard

namespace Run

variable {r : Run Rat} {i : Nat} {v w : Value Rat} {e : Event Rat}

-- ============================================== the commands as a chain

@[simp] theorem duration_stepEvent : (r.stepEvent i v w).duration = r.step :=
  add_sub_cancel_left ..

/-- All steps have one pace. -/
theorem Regular.pace_of_mem (h : r.Regular) (he : e ∈ r.commands) :
    e.pace? = some (Scalar.reading (r.step * 1000)).nearest := by
  obtain ⟨i, hi⟩ := List.mem_iff_getElem?.1 he
  obtain ⟨v, w, hv, -, rfl⟩ := getElem?_commands.1 hi
  have htime : ((r.stepEvent i v w).duration == 0) = false := by simpa using h.step.ne'
  have hflag : (r.stepEvent i v w).kind.isFlag = false :=
    h.isFlag_eq_false (List.mem_of_getElem? hv)
  unfold Event.pace? Event.micros
  rw [hflag, htime, duration_stepEvent]
  rfl

/-- A step leads to the next one, which starts where it ends. -/
theorem leadsTo_stepEvent {x : Value Rat} :
    (r.stepEvent i v w).leadsTo (r.stepEvent (i + 1) w x) = true := by
  have hmeets : (r.stepEvent (i + 1) w x).start = (r.stepEvent i v w).stop := startOf_succ
  unfold Event.leadsTo
  rw [hmeets]
  simp [stepEvent, Scalar.within, Event.first?, Event.last?]

/-- Each command leads to the next. -/
theorem commands_isChain (r : Run Rat) :
    r.commands.IsChain fun e next => e.leadsTo next = true := by
  rw [List.isChain_iff_getElem]
  intro i hi
  obtain ⟨v, w, -, hw, he⟩ := getElem?_commands.1 (List.getElem?_eq_getElem (Nat.lt_of_succ_lt hi))
  obtain ⟨w', x, hw', -, hnext⟩ := getElem?_commands.1 (List.getElem?_eq_getElem hi)
  obtain rfl : w = w' := Option.some.inj (hw.symm.trans hw')
  rw [he, hnext]
  exact leadsTo_stepEvent

/-- The commands end at all values but the first. -/
theorem filterMap_last?_commands (r : Run Rat) :
    r.commands.filterMap Event.last? = r.values.tail := by
  -- place by place: a step ends at the value after it, and the last value has no step
  have hlast : r.commands.map Event.last? = r.values.tail.map some := by
    refine List.ext_getElem? fun i => ?_
    rw [List.getElem?_map, List.getElem?_map, List.getElem?_tail]
    cases he : r.commands[i]? with
    | none =>
        have hsteps : r.steps = r.values.length - 1 := rfl
        have hend : r.values[i + 1]? = none := by
          rw [List.getElem?_eq_none_iff, length_commands] at he
          rw [List.getElem?_eq_none_iff]
          omega
        rw [hend]
        rfl
    | some e =>
        obtain ⟨v, w, -, hw, rfl⟩ := getElem?_commands.1 he
        rw [hw]
        rfl
  calc r.commands.filterMap Event.last?
      = (r.commands.map Event.last?).filterMap id := by rw [List.filterMap_map]; rfl
    _ = r.values.tail := by rw [hlast, List.filterMap_map]; exact List.filterMap_some

end Run

-- ======================================================= the chain as a run

/-- A chain of the commands of a run is written as this run. -/
theorem Chain.run_of_commands {c : Chain Rat} {r : Run Rat} (h : c.events = r.commands) :
    c.run = r := by
  have hhead : r.commands[0]? = some c.head := by
    rw [← h]
    rfl
  obtain ⟨v, w, hv, -, he⟩ := Run.getElem?_commands.1 hhead
  have hvalues : v :: r.values.tail = r.values := by
    cases hr : r.values with
    | nil =>
        rw [hr] at hv
        cases hv
    | cons v' rest =>
        rw [hr] at hv
        cases hv
        rfl
  unfold run
  rw [h, Run.filterMap_last?_commands, he, Run.duration_stepEvent]
  show (⟨r.kind, r.easing, r.startOf 0, r.step, v :: r.values.tail⟩ : Run Rat) = r
  rw [hvalues, Run.startOf_zero]

namespace Run

variable {r : Run Rat}

/-- The commands of a run are gathered into one chain. -/
theorem exists_gather_commands (h : r.Regular) (htwo : 2 ≤ r.values.length) :
    ∃ c, Chain.gather r.commands = [c] ∧ c.events = r.commands := by
  have hne : r.commands ≠ [] := by
    rw [← List.length_pos_iff, length_commands]
    exact Nat.sub_pos_of_lt htwo
  have hgather := Chain.gather_eq_splitBy (commands_increasing h.step) fun _ => h.pace_of_mem
  rw [List.splitBy_of_isChain hne r.commands_isChain, List.map_eq_singleton_iff] at hgather
  exact hgather

/-- The steps of a run of three values or more are compacted to this one run, whatever order they
come in. -/
theorem compact_of_perm_expand (h : r.Regular) (hthree : 3 ≤ r.values.length) :
    ∃ steps, r.expand = .ok steps
      ∧ ∀ events, events.Perm steps → Event.compact events = [.run r] := by
  refine ⟨r.commands, expand_eq h, fun events hperm => ?_⟩
  have hkind : ∀ e ∈ events, e.kind = r.kind := fun e he => by
    obtain ⟨i, hi⟩ := List.mem_iff_getElem?.1 (hperm.mem_iff.1 he)
    obtain ⟨v, w, -, -, rfl⟩ := getElem?_commands.1 hi
    rfl
  obtain ⟨c, hc, hevents⟩ := exists_gather_commands h (Nat.le_of_succ_le hthree)
  -- three values make two steps, so the chain is not written as a single command
  have hlater : c.later ≠ [] := by
    have hlength := congrArg List.length hevents
    have hsteps : r.steps = r.values.length - 1 := rfl
    rw [length_commands, Chain.events, List.length_cons, List.length_reverse] at hlength
    rw [← List.length_pos_iff]
    omega
  unfold Event.compact
  rw [Event.chains_of_kind hkind, Event.inOrder_of_perm hperm (commands_increasing h.step), hc,
    List.map_singleton, Chain.line_eq_run_iff.2 ⟨hlater, Chain.run_of_commands hevents⟩]

/-- Three steps of a quarter of a millisecond, each of which ends near the starts of all others. -/
def tremor : Run Rat :=
  ⟨.rotate, .linear, 0, 1 / 4, [.scalar 0, .scalar 1, .scalar 0, .scalar 1]⟩

/-- Its steps are compacted to it from an order that is not theirs. -/
theorem compact_of_perm_expand_tremor :
    tremor.Regular ∧ 3 ≤ tremor.values.length
      ∧ Event.compact [
          ⟨.rotate, .linear, 1 / 2, 3 / 4, some (.scalar 0, .scalar 1)⟩,
          ⟨.rotate, .linear, 0, 1 / 4, some (.scalar 0, .scalar 1)⟩,
          ⟨.rotate, .linear, 1 / 4, 1 / 2, some (.scalar 1, .scalar 0)⟩] = [.run tremor] := by
  have hregular : tremor.Regular := ⟨by decide +kernel, by decide⟩
  obtain ⟨steps, hsteps, hcompact⟩ := compact_of_perm_expand hregular (by decide)
  refine ⟨hregular, by decide, hcompact _ ?_⟩
  obtain rfl : [
      ⟨.rotate, .linear, 0, 1 / 4, some (.scalar 0, .scalar 1)⟩,
      ⟨.rotate, .linear, 1 / 4, 1 / 2, some (.scalar 1, .scalar 0)⟩,
      ⟨.rotate, .linear, 1 / 2, 3 / 4, some (.scalar 0, .scalar 1)⟩] = steps := by
    have hexpand : tremor.expand = .ok [
        ⟨.rotate, .linear, 0, 1 / 4, some (.scalar 0, .scalar 1)⟩,
        ⟨.rotate, .linear, 1 / 4, 1 / 2, some (.scalar 1, .scalar 0)⟩,
        ⟨.rotate, .linear, 1 / 2, 3 / 4, some (.scalar 0, .scalar 1)⟩] := by decide +kernel
    exact Except.ok.inj (hexpand.symm.trans hsteps)
  decide +kernel

end Run

end Storyboard
