/-
What checking makes sure of. A command that has passed its check does not end
before it starts; it has no values if its kind is a flag, and otherwise one for
each end, of as many components as the kind asks for.
-/
import Mathlib
import Storyboard.Event

namespace Storyboard

variable {α : Type}

namespace Event

/-- Values as a kind wants them. -/
def fits (kind : Kind) : Option (Value α × Value α) → Prop
  | none => kind.isFlag = true
  | some (v, w) => kind.isFlag = false ∧ v.arity = kind.arity ∧ w.arity = kind.arity

/-- Values that have been completed from either side are as the kind wants them. -/
theorem fits_of_sides {kind : Kind} {first last : Option (Value α)}
    {values : Option (Value α × Value α)} (h : sides kind first last = .ok values) :
    fits kind values := by
  unfold sides at h
  -- a flag has no values on either side; others have one on one side at least
  cases hflag : kind.isFlag with
  | true =>
      rw [if_pos hflag] at h
      split at h
      · cases h
      · cases h
        exact hflag
  | false =>
      rw [if_neg (by simp [hflag])] at h
      split at h
      next v w =>
        split at h
        · cases h
        next hv =>
          split at h
          · cases h
          next hw =>
            cases h
            exact ⟨hflag, not_not.1 hv, not_not.1 hw⟩
      · cases h

variable [Scalar α]

/-- A command as checking leaves it. -/
structure WellFormed (e : Event α) : Prop where
  time : ¬e.stop < e.start
  values : fits e.kind e.values

/-- What passes the check is well formed. -/
theorem wellFormed_of_check {kind : Kind} {easing : Easing} {start : α} {stop : Option α}
    {first last : Option (Value α)} {e : Event α}
    (h : check kind easing start stop first last = .ok e) : e.WellFormed := by
  unfold check at h
  simp only [bind, Except.bind] at h
  -- the time is checked first, then the values
  split at h
  · cases h
  next htime =>
    cases hsides : sides kind first last with
    | error f =>
        rw [hsides] at h
        cases h
    | ok values =>
        rw [hsides] at h
        cases h
        exact ⟨by simpa using htime, fits_of_sides hsides⟩

end Event

/-- Drafts that pass their checks are well formed. -/
theorem Draft.wellFormed_of_check [Scalar α] {d : Draft α} {e : Event α} (h : d.check = .ok e) :
    e.WellFormed := by
  cases d with
  | change kind easing start stop first last => exact Event.wellFormed_of_check h
  | flag kind start stop =>
      rw [check] at h
      by_cases hflag : kind.isFlag = true
      · rw [if_pos hflag] at h
        exact Event.wellFormed_of_check h
      · rw [if_neg hflag] at h
        cases h

/-- A well-formed command with values passes its check as it stands. -/
theorem Draft.check_change [Scalar α] {e : Event α} (h : e.WellFormed) {v w : Value α}
    (hvalues : e.values = some (v, w)) :
    (change e.kind e.easing e.start (some e.stop) (some v) (some w)).check = .ok e := by
  have hfits := h.values
  rw [hvalues] at hfits
  obtain ⟨hflag, hv, hw⟩ := hfits
  have hsides : Event.sides e.kind (some v) (some w)
      = (.ok (some (v, w)) : Except (Fault α) _) := by
    unfold Event.sides
    rw [hflag]
    simp [hv, hw]
  unfold check Event.check
  simp only [Option.getD_some, if_neg h.time, hsides, bind, Except.bind, pure, Except.pure]
  rw [← hvalues]

namespace Event

/-- The draft that asks for a command as it stands. -/
def draft (e : Event α) : Draft α :=
  .change e.kind e.easing e.start (some e.stop) (e.values.map Prod.fst) (e.values.map Prod.snd)

/-- Commands that pass as they stand have been checked. -/
theorem checked_of_draft [Scalar α] {events : List (Event α)}
    (h : ∀ e ∈ events, e.draft.check = .ok e) : ∀ e ∈ events, ∃ d : Draft α, d.check = .ok e :=
  fun e he => ⟨e.draft, h e he⟩

end Event

end Storyboard
