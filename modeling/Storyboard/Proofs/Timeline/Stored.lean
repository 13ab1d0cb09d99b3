/-
What timelines can hold. Every command of a timeline, and of the body of a loop, finished or not,
was added by a step and has passed its check then (`Held.wellFormed`). Commands are
not changed once they have been added.

The check compares the end of a command with its start and refuses one that is smaller. An undefined
number is neither smaller nor greater than another one, so a command passes whose start or end is
undefined, and it is not the case then that it ends no earlier than it starts. Nothing else keeps
the times of a command from being in order (`Held.in_order_iff`).
-/
import Storyboard.Proofs.Event.WellFormed
import Storyboard.Proofs.Number.Faithful
import Storyboard.Proofs.Timeline.Assembly

namespace Storyboard

-- ========================================================= in order

/-- A command that has passed its check ends no earlier than it starts, if both times compare with
themselves. -/
theorem Event.WellFormed.start_le_stop_iff {α : Type} [Scalar α] [Scalar.Ordered α] {e : Event α}
    (h : e.WellFormed) : e.start ≤ e.stop ↔ e.start ≤ e.start ∧ e.stop ≤ e.stop := by
  constructor
  · intro hle
    exact ⟨Scalar.Ordered.le_self_left hle, Scalar.Ordered.le_self_right hle⟩
  · rintro ⟨hstart, hstop⟩
    exact Scalar.le_of_not_lt hstop hstart h.time

variable {α : Type}

/-- A command that has passed its check has no values if it is a flag, and otherwise two of as many
components as its kind asks for. -/
theorem Event.fits_iff {kind : Kind} {values : Option (Value α × Value α)} :
    fits kind values ↔ (values = none ↔ kind.isFlag = true)
      ∧ ∀ v w, values = some (v, w) → v.arity = kind.arity ∧ w.arity = kind.arity := by
  rcases values with _ | ⟨v, w⟩
  · simp [fits]
  · cases hflag : kind.isFlag <;> simp [fits, hflag]

-- ========================================================== what is held

/-- The commands of an entry: itself, or those of the body of a loop. -/
def Entry.commands : Entry α → List (Event α)
  | .event e => [e]
  | .loop l => l.body

/-- The commands of a timeline, those of its loops included. -/
def Timeline.stored (t : Timeline α) : List (Event α) := t.entries.flatMap Entry.commands

variable [Scalar α]

/-- A command is held after some steps: by the timeline they were taken on, or by the body of a
loop if they were taken there. -/
def Held (steps : List (Step α)) (e : Event α) : Prop :=
  e ∈ (Timeline.empty.after steps).stored ∨ .event e ∈ (Assembly.after true steps).nodes

/-- What a step adds to the body of a loop is well formed. -/
theorem Step.wellFormed_of_command? {s : Step α} {e : Event α} (h : s.command? = some e) :
    e.WellFormed := by
  cases s with
  | event d =>
      have hcheck : d.check.toOption = some e := h
      exact Draft.wellFormed_of_check (toOption_eq_some_iff.1 hcheck)
  | loop start count lenient body => cases h

/-- What a step adds to a timeline is well formed. -/
theorem Step.wellFormed_of_entry {s : Step α} {entry : Entry α} (h : s.entry = .ok entry) :
    ∀ e ∈ entry.commands, e.WellFormed := by
  intro e he
  rcases entry_cases h with ⟨d, e', -, hcheck, rfl⟩ | ⟨lenient, body, l, -, -, hbody, rfl⟩
  · obtain rfl := List.mem_singleton.1 he
    exact Draft.wellFormed_of_check hcheck
  · rw [Entry.commands, (eq_of_buildBody hbody).1] at he
    obtain ⟨s', -, hs'⟩ := List.mem_filterMap.1 he
    exact wellFormed_of_command? hs'

/-- What is held after any steps is well formed. -/
theorem Held.wellFormed {steps : List (Step α)} {e : Event α} (h : Held steps e) :
    e.WellFormed := by
  rcases h with h | h
  · obtain ⟨entry, hentry, he⟩ := List.mem_flatMap.1 h
    rw [Timeline.entries_after, Timeline.empty, List.nil_append] at hentry
    obtain ⟨s, -, hs⟩ := List.mem_filterMap.1 hentry
    exact Step.wellFormed_of_entry (toOption_eq_some_iff.1 hs) e he
  · rw [Step.after_inLoop] at h
    obtain ⟨e', he', hnode⟩ := List.mem_map.1 h
    obtain rfl := Node.event.inj hnode
    obtain ⟨s, -, hs⟩ := List.mem_filterMap.1 he'
    exact Step.wellFormed_of_command? hs

/-- A command that is held has values as its kind asks for, and it ends no earlier than it starts
exactly if neither of the two times is undefined. -/
theorem Held.in_order_iff {steps : List (Step Float)} {e : Event Float} (h : Held steps e) :
    (e.start ≤ e.stop ↔ Scalar.reading e.start ≠ .nan ∧ Scalar.reading e.stop ≠ .nan)
      ∧ (e.values = none ↔ e.kind.isFlag = true)
      ∧ ∀ v w, e.values = some (v, w) → v.arity = e.kind.arity ∧ w.arity = e.kind.arity := by
  have hwell := h.wellFormed
  refine ⟨?_, Event.fits_iff.1 hwell.values⟩
  rw [hwell.start_le_stop_iff, Binary.le_self_iff, Binary.le_self_iff]

/-- A fade in a loop whose lenient body began with a loop of its own. -/
theorem Held.in_order_loop :
    let steps : List (Step Float) :=
      [.loop 0 2 true [.loop 0 1 false [], .event (.fade .linear 0 50 0 1)]]
    let e : Event Float := ⟨.fade, .linear, 0, 50, some (.scalar 0, .scalar 1)⟩
    Held steps e ∧ e.start ≤ e.stop ∧ Value.arity (.scalar (0 : Float)) = e.kind.arity := by
  intro steps e
  have hheld : Held steps e := Or.inl (by decide +kernel)
  obtain ⟨htimes, -, hvalues⟩ := hheld.in_order_iff
  exact ⟨hheld, htimes.2 ⟨by decide +kernel, by decide +kernel⟩, (hvalues _ _ rfl).1⟩

/-- A fade from an undefined time on is added, and does not end at that time or later. -/
theorem Held.out_of_order :
    let steps : List (Step Float) := [.event (.fade .linear (0 / 0) 100 0 1)]
    let e : Event Float := ⟨.fade, .linear, 0 / 0, 100, some (.scalar 0, .scalar 1)⟩
    Held steps e ∧ ¬e.start ≤ e.stop :=
  ⟨Or.inl (by decide +kernel), by decide +kernel⟩

end Storyboard
