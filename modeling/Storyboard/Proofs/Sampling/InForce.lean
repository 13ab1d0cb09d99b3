/-
Which of a list of timed items is in force at a time: of those that have
started the one that started last, and of those the one that is listed last.
This is how a storyboard is read when commands of one kind follow each other,
and everything said about what a sprite shows goes through it.

The definition folds the list from its end. What it means is said once
(`inForce_eq_some_iff`): the items before the one in force start no later, the
items after it start earlier or have not started. It stays in force when items
that start no later are put before it and items that start earlier behind it.
-/
import Storyboard.Proofs.Number.Ordered

namespace Storyboard

variable {α ι : Type} [Scalar α]

-- ==================================================== the definition

/-- Of two items, the second one unless the first starts later. -/
def prevailing (start : ι → α) : Option ι → Option ι → Option ι
  | none, y => y
  | some x, none => some x
  | some x, some y => if start y < start x then some x else some y

/-- The item in force at a time: the last started, of several the one listed
last. -/
def inForce (start : ι → α) (t : α) : List ι → Option ι
  | [] => none
  | x :: xs => prevailing start (if start x ≤ t then some x else none) (inForce start t xs)

variable {start : ι → α} {t : α}

-- ================================================ what it says

/-- Nothing is in force if nothing has started. -/
theorem inForce_eq_none_iff {xs : List ι} :
    inForce start t xs = none ↔ ∀ x ∈ xs, ¬start x ≤ t := by
  induction xs with
  | nil => simp [inForce]
  | cons x xs ih =>
      rw [inForce, List.forall_mem_cons, ← ih]
      by_cases hx : start x ≤ t
      · rw [if_pos hx]
        cases inForce start t xs with
        | none => simp [prevailing, hx]
        | some y =>
            simp only [prevailing, hx, not_true_eq_false, false_and, iff_false]
            split <;> simp
      · rw [if_neg hx]
        simp [prevailing, hx]

/-- What is in force is listed and has started. -/
theorem mem_of_inForce {xs : List ι} {x : ι} (h : inForce start t xs = some x) :
    x ∈ xs ∧ start x ≤ t := by
  induction xs with
  | nil => cases h
  | cons y xs ih =>
      rw [inForce] at h
      split at h
      case isTrue hy =>
        cases hin : inForce start t xs with
        | none =>
            rw [hin] at h
            cases h
            exact ⟨List.mem_cons_self, hy⟩
        | some z =>
            rw [hin] at h
            simp only [prevailing] at h
            split at h
            · cases h
              exact ⟨List.mem_cons_self, hy⟩
            · cases h
              exact ⟨List.mem_cons_of_mem _ (ih hin).1, (ih hin).2⟩
      case isFalse =>
        have h' : inForce start t xs = some x := h
        exact ⟨List.mem_cons_of_mem _ (ih h').1, (ih h').2⟩

/-- Items that have not started change nothing, wherever they are listed. -/
theorem inForce_append_of_unstarted {xs later : List ι} (h : ∀ y ∈ later, ¬start y ≤ t) :
    inForce start t (xs ++ later) = inForce start t xs := by
  induction xs with
  | nil => exact inForce_eq_none_iff.2 h
  | cons x xs ih => rw [List.cons_append, inForce, ih, inForce]

/-- This goes for items listed first as well. -/
theorem inForce_unstarted_append {earlier xs : List ι} (h : ∀ y ∈ earlier, ¬start y ≤ t) :
    inForce start t (earlier ++ xs) = inForce start t xs := by
  induction earlier with
  | nil => rfl
  | cons y earlier ih =>
      rw [List.forall_mem_cons] at h
      rw [List.cons_append, inForce, if_neg h.1, ih h.2, prevailing]

/-- An item that no later one catches up with is in force over them. -/
theorem inForce_cons_of_later {x : ι} {later : List ι} (hx : start x ≤ t)
    (hlater : ∀ y ∈ later, start y ≤ t → start y < start x) :
    inForce start t (x :: later) = some x := by
  rw [inForce, if_pos hx]
  cases hin : inForce start t later with
  | none => rfl
  | some y =>
      obtain ⟨hmem, hy⟩ := mem_of_inForce hin
      exact if_pos (hlater y hmem hy)

section

variable [Scalar.Ordered α]

/-- An item in force stays so over earlier ones that start no later. -/
theorem inForce_append_of_earlier {earlier xs : List ι} {x : ι}
    (hx : inForce start t xs = some x)
    (hearlier : ∀ y ∈ earlier, start y ≤ t → start y ≤ start x) :
    inForce start t (earlier ++ xs) = some x := by
  induction earlier with
  | nil => exact hx
  | cons y earlier ih =>
      have ih' := ih fun z hz => hearlier z (List.mem_cons_of_mem _ hz)
      rw [List.cons_append, inForce, ih']
      split
      case isTrue hy =>
        have hle := hearlier y List.mem_cons_self hy
        exact if_neg fun hlt => Scalar.not_le_of_lt hlt hle
      case isFalse => rfl

/-- So it does over a single one put before it. -/
theorem inForce_cons_of_earlier {xs : List ι} {x y : ι} (hx : inForce start t xs = some x)
    (hy : start y ≤ t → start y ≤ start x) : inForce start t (y :: xs) = some x :=
  inForce_append_of_earlier hx (List.forall_mem_singleton.2 hy)

/-- The item in force, told from the lists before and after it: the earlier
ones start no later, the later ones start before it or have not started. -/
theorem inForce_eq_some_iff {xs : List ι} {x : ι} :
    inForce start t xs = some x ↔
      ∃ earlier later, xs = earlier ++ x :: later ∧ start x ≤ t
        ∧ (∀ y ∈ earlier, start y ≤ t → start y ≤ start x)
        ∧ ∀ y ∈ later, start y ≤ t → start y < start x := by
  constructor
  · intro h
    induction xs generalizing x with
    | nil => cases h
    | cons y xs ih =>
        rw [inForce] at h
        -- what is in force of the rest stays so, unless the first item has started and starts
        -- later
        cases hin : inForce start t xs with
        | none =>
            rw [hin] at h
            split at h
            case isTrue hy =>
              cases h
              have hnone := inForce_eq_none_iff.1 hin
              exact ⟨[], xs, rfl, hy, by simp, fun z hz hzt => absurd hzt (hnone z hz)⟩
            case isFalse => cases h
        | some z =>
            rw [hin] at h
            have hz := (mem_of_inForce hin).2
            obtain ⟨earlier, later, hxs, -, hearlier, hlater⟩ := ih hin
            split at h
            case isTrue hy =>
              simp only [prevailing] at h
              split at h
              case isTrue hlt =>
                cases h
                refine ⟨[], xs, rfl, hy, by simp, fun w hw hwt => ?_⟩
                rw [hxs, List.mem_append, List.mem_cons] at hw
                rcases hw with hw | rfl | hw
                · exact Scalar.lt_of_le_of_lt (hearlier w hw hwt) hlt
                · exact hlt
                · exact Scalar.lt_trans (hlater w hw hwt) hlt
              case isFalse hlt =>
                cases h
                refine ⟨y :: earlier, later, by rw [hxs]; rfl, hz, ?_, hlater⟩
                refine List.forall_mem_cons.2 ⟨fun _ => ?_, hearlier⟩
                exact Scalar.le_of_not_lt (Scalar.Ordered.le_self_left hz)
                  (Scalar.Ordered.le_self_left hy) hlt
            case isFalse hy =>
              cases h
              refine ⟨y :: earlier, later, by rw [hxs]; rfl, hz, ?_, hlater⟩
              exact List.forall_mem_cons.2 ⟨fun h => absurd h hy, hearlier⟩
  · intro h'
    obtain ⟨earlier, later, rfl, hx, hearlier, hlater⟩ := h'
    exact inForce_append_of_earlier (inForce_cons_of_later hx hlater) hearlier

/-- An item in force stays so before later ones that start earlier or have not
started. -/
theorem inForce_append_of_later {xs later : List ι} {x : ι}
    (hx : inForce start t xs = some x)
    (hlater : ∀ y ∈ later, start y ≤ t → start y < start x) :
    inForce start t (xs ++ later) = some x := by
  obtain ⟨earlier, between, rfl, hxt, hearlier, hbetween⟩ := inForce_eq_some_iff.1 hx
  refine inForce_eq_some_iff.2 ⟨earlier, between ++ later, by simp, hxt, hearlier, ?_⟩
  intro y hy
  rcases List.mem_append.1 hy with hy | hy
  · exact hbetween y hy
  · exact hlater y hy

/-- The item in force has started no earlier than any other. -/
theorem start_le_of_inForce {xs : List ι} {x y : ι} (hx : inForce start t xs = some x)
    (hy : y ∈ xs) (hyt : start y ≤ t) : start y ≤ start x := by
  obtain ⟨earlier, later, rfl, hxt, hearlier, hlater⟩ := inForce_eq_some_iff.1 hx
  rcases List.mem_append.1 hy with hy | hy
  · exact hearlier y hy hyt
  · rcases List.mem_cons.1 hy with rfl | hy
    · exact Scalar.Ordered.le_self_left hyt
    · exact Scalar.le_of_lt (hlater y hy hyt)

end

end Storyboard
