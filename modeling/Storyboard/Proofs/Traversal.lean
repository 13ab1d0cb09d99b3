/-
Doing something that can fail with every item of a list: it succeeds if it does with each of them,
and otherwise it stops with the first fault.
-/
import Mathlib

namespace Storyboard

variable {β γ ε : Type} {f : β → Except ε γ} {xs : List β}

/-- What is left without the fault is the result, if there is one. -/
theorem toOption_eq_some_iff {x : Except ε β} {b : β} : x.toOption = some b ↔ x = .ok b := by
  cases x with
  | error e => simp [Except.toOption]
  | ok b' => simp [Except.toOption]

/-- A function that gives a result for every item gives them all. -/
theorem mapM_eq_ok {ys : List γ} (h : xs.map f = ys.map .ok) : xs.mapM f = .ok ys := by
  have hxs : (xs.map f).mapM id = xs.mapM f := List.mapM_map
  have hys : (ys.map Except.ok).mapM id = (.ok ys : Except ε (List γ)) := by
    rw [List.mapM_map]
    exact List.mapM_pure.trans (congrArg _ (List.map_id' ys))
  rw [← hxs, h, hys]

/-- The results of a list are those of its items. -/
theorem mapM_eq_ok_iff {ys : List γ} : xs.mapM f = .ok ys ↔ xs.map f = ys.map .ok := by
  refine ⟨fun h => ?_, mapM_eq_ok⟩
  induction xs generalizing ys with
  | nil =>
      cases h
      rfl
  | cons x xs ih =>
      rw [List.mapM_cons] at h
      cases hx : f x with
      | error e =>
          rw [hx] at h
          cases h
      | ok y =>
          rw [hx] at h
          cases hxs : xs.mapM f with
          | error e =>
              rw [hxs] at h
              cases h
          | ok ys' =>
              rw [hxs] at h
              cases h
              rw [List.map_cons, List.map_cons, hx, ih hxs]

/-- The fault is that of the first item that has one. -/
theorem mapM_eq_error_iff {e : ε} :
    xs.mapM f = .error e
      ↔ ∃ before x after, xs = before ++ x :: after ∧ (∀ y ∈ before, ∃ b, f y = .ok b)
        ∧ f x = .error e := by
  induction xs with
  | nil =>
      rw [List.mapM_nil]
      refine iff_of_false (fun h => by cases h) fun h => ?_
      obtain ⟨before, x, after, hxs, -⟩ := h
      simp at hxs
  | cons x xs ih =>
      rw [List.mapM_cons]
      constructor
      · intro h
        -- the first item has the fault, or gives a result and leaves it to the rest
        cases hx : f x with
        | error e' =>
            rw [hx] at h
            cases h
            exact ⟨[], x, xs, rfl, by simp, hx⟩
        | ok y =>
            rw [hx] at h
            have hrest : xs.mapM f = .error e := by
              cases hxs : xs.mapM f with
              | error e' =>
                  rw [hxs] at h
                  exact h
              | ok ys =>
                  rw [hxs] at h
                  cases h
            obtain ⟨before, x', after, rfl, hbefore, hx'⟩ := ih.1 hrest
            exact ⟨x :: before, x', after, rfl, List.forall_mem_cons.2 ⟨⟨y, hx⟩, hbefore⟩, hx'⟩
      · rintro ⟨before, x', after, hxs, hbefore, hx'⟩
        cases before with
        | nil =>
            obtain ⟨rfl, rfl⟩ := List.cons.inj hxs
            rw [hx']
            rfl
        | cons x'' before =>
            obtain ⟨rfl, rfl⟩ := List.cons.inj hxs
            obtain ⟨⟨y, hx⟩, hbefore⟩ := List.forall_mem_cons.1 hbefore
            rw [hx, ih.2 ⟨before, x', after, rfl, hbefore, hx'⟩]
            rfl

end Storyboard
