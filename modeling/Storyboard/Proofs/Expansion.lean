/-
Compaction can be undone. The steps of the run that a chain is written as are drafts of
its commands, and they pass their checks as the commands themselves
(`Chain.check_drafts`). So every line expands to the commands of its chain, and the
lines together to the commands that were compacted, in some order
(`Event.expand_compact`).
-/
import Storyboard.Proofs.Chain.Places
import Storyboard.Proofs.Chain.Value
import Storyboard.Proofs.Compaction
import Storyboard.Proofs.Run.Steps

namespace Storyboard

-- =========================================================== chains

namespace Chain

variable {all : List (Event Rat)} {c : Chain Rat} {k : Kind}

/-- The steps of the run of a chain pass their checks as its commands. -/
theorem check_drafts (h : Event.PreciseOf k all) (hc : c ∈ gather all) (hlater : c.later ≠ []) :
    c.run.drafts.map Draft.check = c.events.map .ok := by
  -- place by place, for the run has its steps where the chain has its commands
  refine List.ext_getElem? fun i => ?_
  rw [List.getElem?_map, List.getElem?_map]
  cases he : c.events[i]? with
  | none =>
      rw [List.getElem?_eq_none_iff, ← steps_run h hc hlater, ← Run.length_drafts,
        ← List.getElem?_eq_none_iff] at he
      rw [he]
      rfl
  | some e =>
      have hmem := List.mem_of_getElem? he
      have hhead : c.head ∈ c.events := List.mem_cons_self
      obtain ⟨v, w, hvw, hv, hw⟩ := step_of_getElem? h hc hlater he
      have hkind : c.run.kind = e.kind :=
        ((precise_events h hc).kind _ hhead).trans ((precise_events h hc).kind _ hmem).symm
      have heasing : c.run.easing = e.easing := easing_eq hc _ hhead _ hmem
      rw [Run.getElem?_drafts hv hw, hkind, heasing, ← start_of_getElem? h hc hlater he,
        ← stop_eq h hc hlater hmem]
      exact congrArg some (Draft.check_change (wellFormed_of_mem h hc hmem) hvw)

/-- The line of a chain expands to the commands of the chain. -/
theorem expand_line (h : Event.PreciseOf k all) (hc : c ∈ gather all) :
    c.line.expand = .ok c.events := by
  rw [line_eq]
  by_cases hlater : c.later = []
  · have hone : c.events = [c.head] := by simp [events, hlater]
    rw [if_pos hlater, hone]
    rfl
  · rw [if_neg hlater]
    exact mapM_eq_ok (check_drafts h hc hlater)

end Chain

-- ============================================================ lists

namespace Event

variable {events : List (Event Rat)}

/-- The chains hold the commands that were compacted. -/
theorem chains_perm {α : Type} [Scalar α] (events : List (Event α)) :
    ((chains events).flatMap Chain.events).Perm events := by
  unfold chains
  rw [List.flatMap_assoc]
  refine .trans ?_ (Kind.flatMap_filter_perm Event.kind events)
  exact List.Perm.flatMap_left _ fun k _ => (Chain.gather_perm _).trans (List.mergeSort_perm ..)

/-- Precise commands can be read back from their lines: every line expands, and
together they give the commands that were compacted. -/
theorem expand_compact (h : Precise events) :
    ∃ expansions, (compact events).mapM Line.expand = .ok expansions
      ∧ expansions.flatten.Perm events := by
  refine ⟨(chains events).map Chain.events, mapM_eq_ok ?_, ?_⟩
  · unfold compact
    rw [List.map_map, List.map_map]
    refine List.map_congr_left fun c hc => ?_
    obtain ⟨k, -, hc⟩ := List.mem_flatMap.1 hc
    exact Chain.expand_line (h.inOrder_filter k) hc
  · rw [← List.flatMap_def]
    exact chains_perm events

/-- The flash stands alone, and the fade is read back from its run. -/
theorem expand_compact_flash :
    Precise [flash, rise, climb]
      ∧ ∃ expansions, (compact [flash, rise, climb]).mapM Line.expand = .ok expansions
        ∧ expansions.flatten.Perm [flash, rise, climb] :=
  ⟨precise_flash, expand_compact precise_flash⟩

end Event

end Storyboard
